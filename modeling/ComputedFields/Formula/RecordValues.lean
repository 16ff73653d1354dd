import ComputedFields.Entries
import ComputedFields.Formula.Evaluation

/-! Records that are given by their values, outside any store. -/

namespace ComputedFields

/-- A record with the values of its fields and of the fields behind its links. -/
structure RecordValues where
  values : Entries FieldId Value
  /-- The values behind a link, by link field and field. -/
  linked : Entries (FieldId × FieldId) (List Value)

namespace RecordValues

/-- The record without values. -/
def empty : RecordValues := ⟨.empty, .empty⟩

/-- The record with the value of a field put in place of what it had. -/
def set (r : RecordValues) (f : FieldId) (value : Value) : RecordValues :=
  { r with values := r.values.set f value }

/-- The record with the values of a field behind a link put in place of what it had. -/
def setLinked (r : RecordValues) (link f : FieldId) (values : List Value) : RecordValues :=
  { r with linked := r.linked.set (link, f) values }

/-- The record as a formula sees it; what it does not have is null or an empty list. -/
def view (r : RecordValues) : View Id where
  fieldValue f := (r.values.get? f).getD .null
  linkedValues link f := (r.linked.get? (link, f)).getD []

end RecordValues

end ComputedFields
