import ComputedFields.Ordered
import ComputedFields.Schema
import ComputedFields.Value.Basic

/-! Stored values and links of records. A field that holds nothing has no entry, so a stored null
and a field never set are one, and so are an empty link and a link never set. Links are read in
both directions: forward by record, and backward by a search of all links. -/

namespace ComputedFields

/-- A field of a record. -/
abbrev Cell := RecordId × FieldId

/-- Records with their stored values and links. -/
structure Store where
  /-- The table of each record, in the order in which the records were added. -/
  tables : List TableId
  values : Entries Cell Value
  links : Entries Cell (List RecordId)

namespace Store

/-- The store without records. -/
def empty : Store := ⟨[], .empty, .empty⟩

/-- Adds a record to a table. -/
def addRecord (s : Store) (table : TableId) : Store × RecordId :=
  ({ s with tables := s.tables ++ [table] }, ⟨s.tables.length⟩)

/-- The records of a table, in the order in which they were added. -/
def records (s : Store) (table : TableId) : List RecordId :=
  (s.tables.zipIdx.filter (·.1 = table)).map fun (_, index) => ⟨index⟩

/-- Stores a value. -/
def setValue (s : Store) (record : RecordId) (field : FieldId) (value : Value) : Store :=
  { s with
    values := if value.isNull then s.values.erase (record, field)
      else s.values.set (record, field) value }

/-- Stores the targets of a link field. -/
def setLinks (s : Store) (record : RecordId) (link : FieldId) (targets : List RecordId) : Store :=
  { s with
    links := if targets.isEmpty then s.links.erase (record, link)
      else s.links.set (record, link) targets }

/-- The stored value of a field, null when there is none. -/
def fieldValue (s : Store) (record : RecordId) (field : FieldId) : Value :=
  (s.values.get? (record, field)).getD .null

/-- The records that a link field leads to. -/
def linkedRecords (s : Store) (record : RecordId) (link : FieldId) : List RecordId :=
  (s.links.get? (record, link)).getD []

/-- The records whose link field leads to `target`, ascending. -/
def recordsLinkingTo (s : Store) (link : FieldId) (target : RecordId) : List RecordId :=
  Ordered.sort RecordId.compare
    ((s.links.toList.filter fun ((_, field), targets) =>
      field = link && targets.contains target).map fun ((record, _), _) => record)

end Store

end ComputedFields
