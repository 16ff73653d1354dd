import ComputedFields.Schema
import ComputedFields.Steps

/-! The tables in which a schema is kept: the fields in a list, an index from their numbers to their
positions in it, and a counter for the next number. A field that is added goes into each of them in
its turn, after it has been checked. -/

namespace ComputedFields

/-- The tables of a schema. -/
structure IndexedSchema where
  tables : List (TableId × String)
  fields : List Field
  /-- Where in the list each field is. -/
  positions : Entries FieldId Nat
  /-- The number of the field that is added next. -/
  nextField : Nat

namespace IndexedSchema

/-- The schema without tables. -/
def empty : IndexedSchema := ⟨[], [], .empty, 0⟩

/-! ## Views -/

/-- The name of a table. -/
def tableName? (s : IndexedSchema) (table : TableId) : Option String :=
  (s.tables.find? fun t => t.1 = table).map (·.2)

/-- A field by its number. -/
def field? (s : IndexedSchema) (f : FieldId) : Option Field :=
  (s.positions.get? f).bind fun i => s.fields[i]?

/-- The field of a table with a name. -/
def fieldByName? (s : IndexedSchema) (table : TableId) (name : String) : Option Field :=
  s.fields.find? fun f => f.table = table && f.name == name

/-- The fields of a table. -/
def fieldsIn (s : IndexedSchema) (table : TableId) : List Field :=
  s.fields.filter (·.table = table)

/-- The table that a link field leads to. -/
def linkTarget? (s : IndexedSchema) (field : FieldId) : Option TableId :=
  (s.field? field).bind fun f => f.kind.target?

/-- How formulas of a table name fields. -/
def resolver (s : IndexedSchema) (table : TableId) : Resolver where
  resolve name := (s.fieldByName? table name).map (·.id)
  isLink field := (s.linkTarget? field).isSome
  resolveLinked link name :=
    (s.linkTarget? link).bind fun target => (s.fieldByName? target name).map (·.id)
  fieldName field := (s.field? field).map (·.name)

/-! ## Additions -/

/-- Adds a table. -/
def addTable (name : String) : Steps IndexedSchema SchemaError TableId := do
  let table : TableId := ⟨(← get).tables.length⟩
  modify fun s => { s with tables := s.tables ++ [(table, name)] }
  return table

/-- A table must exist. -/
def checkTable (table : TableId) (s : IndexedSchema) : Except SchemaError PUnit :=
  if (s.tableName? table).isSome then .ok ⟨⟩ else .error (.unknownTable table)

/-- The table of a new field must exist, and then the one that it links to. -/
def checkTables (table : TableId) (kind : FieldKind) (s : IndexedSchema) :
    Except SchemaError PUnit := do
  checkTable table s
  match kind with
  | .link target => checkTable target s
  | _ => pure ⟨⟩

/-- The name of a new field must be neither empty nor too long, and not in use in its table. -/
def checkName (table : TableId) (name : String) (s : IndexedSchema) : Except SchemaError PUnit :=
  if name.isEmpty || Schema.maxNameBytes < name.utf8ByteSize then .error (.invalidFieldName name)
  else if (s.fieldByName? table name).isSome then .error (.duplicateFieldName table name)
  else .ok ⟨⟩

/-- Writes a field down under the next number. -/
def writeField (table : TableId) (name : String) (kind : FieldKind) :
    Steps IndexedSchema SchemaError FieldId := do
  let f : FieldId := ⟨(← get).nextField⟩
  modify fun s => { s with nextField := s.nextField + 1 }
  modify fun s => { s with positions := s.positions.set f s.fields.length }
  modify fun s => { s with fields := s.fields ++ [⟨f, table, name, kind⟩] }
  return f

/-- Adds a field. Its name is taken without the white space around it. -/
def addField (table : TableId) (name : String) (kind : FieldKind) :
    Steps IndexedSchema SchemaError FieldId := do
  Steps.look (checkTables table kind)
  Steps.look (checkName table (Text.trim name))
  writeField table (Text.trim name) kind

end IndexedSchema

end ComputedFields
