import ComputedFields.Entries
import ComputedFields.Text.Blank
import ComputedFields.Text.Quoted

/-! Tables, their fields, and the names under which a formula of a table reads fields. Tables
and fields are numbered as they are added; a field's number is its own across all tables. -/

namespace ComputedFields

/-- Names a table. -/
structure TableId where
  index : Nat
deriving DecidableEq, Repr

/-- Names a field, among all tables. -/
structure FieldId where
  index : Nat
deriving DecidableEq, Repr

/-- Names a record, among all tables. -/
structure RecordId where
  index : Nat
deriving DecidableEq, Repr

namespace TableId

def toText (table : TableId) : String := "tbl" ++ toString table.index

end TableId

namespace FieldId

/-- The order in which fields were added. -/
def compare (a b : FieldId) : Ordering := Ord.compare a.index b.index

def toText (field : FieldId) : String := "fld" ++ toString field.index

end FieldId

namespace RecordId

/-- The order in which records were added. -/
def compare (a b : RecordId) : Ordering := Ord.compare a.index b.index

def toText (record : RecordId) : String := "rec" ++ toString record.index

end RecordId

/-- What a field holds. -/
inductive FieldKind where
  /-- A stored value. -/
  | plain
  /-- Links to records of another table. -/
  | link (target : TableId)
  /-- The value of a formula. -/
  | formula
deriving DecidableEq, Repr

/-- The table that links of this kind lead to. -/
def FieldKind.target? : FieldKind → Option TableId
  | .link target => some target
  | _ => none

/-- A field of a table. -/
structure Field where
  id : FieldId
  table : TableId
  name : String
  kind : FieldKind
deriving DecidableEq, Repr

/-- Tables and fields in the order in which they were added. -/
structure Schema where
  tables : List String
  fields : List Field
deriving DecidableEq, Repr

/-- Why a field cannot be added. -/
inductive SchemaError where
  | unknownTable (table : TableId)
  | duplicateFieldName (table : TableId) (name : String)
  | invalidFieldName (name : String)
deriving DecidableEq, Repr

/-- The wording of an error. -/
def SchemaError.message : SchemaError → String
  | .unknownTable table => "Unknown table: " ++ table.toText
  | .duplicateFieldName table name =>
    "Field name already exists in table " ++ table.toText ++ ": " ++ name
  | .invalidFieldName name => "Invalid field name: " ++ Text.quoted name

/-- How a formula of some table names fields. -/
structure Resolver where
  /-- The field of the formula's own table with a name. -/
  resolve : String → Option FieldId
  /-- Whether a field holds links. -/
  isLink : FieldId → Bool
  /-- The field with a name in the table that a link field leads to. -/
  resolveLinked : FieldId → String → Option FieldId
  /-- The name of a field. -/
  fieldName : FieldId → Option String

namespace Schema

/-- The schema without tables. -/
def empty : Schema := ⟨[], []⟩

/-- The longest field name, in bytes. -/
def maxNameBytes : Nat := 255

/-- Adds a table. -/
def addTable (s : Schema) (name : String) : Schema × TableId :=
  ({ s with tables := s.tables ++ [name] }, ⟨s.tables.length⟩)

/-- The name of a table. -/
def tableName? (s : Schema) (table : TableId) : Option String := s.tables[table.index]?

/-- A field by its number. -/
def field? (s : Schema) (field : FieldId) : Option Field := s.fields[field.index]?

/-- The field of a table with a name. -/
def fieldByName? (s : Schema) (table : TableId) (name : String) : Option Field :=
  s.fields.find? fun f => f.table = table && f.name == name

/-- The fields of a table. -/
def fieldsIn (s : Schema) (table : TableId) : List Field := s.fields.filter (·.table = table)

/-- The numbers of all fields. -/
def fieldIds (s : Schema) : List FieldId := s.fields.map (·.id)

/-- Whether a field is computed by a formula. -/
def isFormula (s : Schema) (field : FieldId) : Bool :=
  match s.field? field with
  | some f => f.kind = .formula
  | none => false

/-- The table that a link field leads to. -/
def linkTarget? (s : Schema) (field : FieldId) : Option TableId :=
  (s.field? field).bind fun f => f.kind.target?

/-- The first table, of a field's own and the one that it links to, that does not exist. -/
def missingTable? (s : Schema) (table : TableId) (kind : FieldKind) : Option TableId :=
  (table :: kind.target?.toList).find? fun t => (s.tableName? t).isNone

/-- Adds a field. Its name is taken without the white space around it. -/
def addField (s : Schema) (table : TableId) (name : String) (kind : FieldKind) :
    Except SchemaError (Schema × FieldId) :=
  let name := Text.trim name
  match s.missingTable? table kind with
  | some missing => .error (.unknownTable missing)
  | none =>
    if name.isEmpty || maxNameBytes < name.utf8ByteSize then .error (.invalidFieldName name)
    else if (s.fieldByName? table name).isSome then .error (.duplicateFieldName table name)
    else
      .ok ({ s with fields := s.fields ++ [⟨⟨s.fields.length⟩, table, name, kind⟩] },
        ⟨s.fields.length⟩)

/-- How formulas of a table name fields. -/
def resolver (s : Schema) (table : TableId) : Resolver where
  resolve name := (s.fieldByName? table name).map (·.id)
  isLink field := (s.linkTarget? field).isSome
  resolveLinked link name :=
    (s.linkTarget? link).bind fun target => (s.fieldByName? target name).map (·.id)
  fieldName field := (s.field? field).map (·.name)

end Schema

end ComputedFields
