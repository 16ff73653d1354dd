import ComputedFields.CommandLine.Arguments
import ComputedFields.CommandLine.Specification
import ComputedFields.Formula.Compiled
import ComputedFields.Formula.Printer
import ComputedFields.Formula.RecordValues
import ComputedFields.Value.Stored

/-! The commands of the command line. A formula is compiled against a schema of one table, made
of the fields and links that the options name, with a table more for each link. -/

namespace ComputedFields.CommandLine

/-! ## The schema of the options -/

/-- The table of the record. -/
def recordTable : TableId := ⟨0⟩

/-- The schema with the table of the record alone. -/
def startSchema : Schema := (Schema.empty.addTable "Record").1

/-- A field of a table, added if the table does not have it. -/
def ensureField (schema : Schema) (table : TableId) (name : String)
    (failure : SchemaError → Failure) : Except Failure (Schema × FieldId) :=
  match schema.fieldByName? table (Text.trim name) with
  | some field => .ok (schema, field.id)
  | none => (schema.addField table name .plain).mapError failure

/-- A field of the record. -/
def ensureRecordField (schema : Schema) (name : String) : Except Failure (Schema × FieldId) :=
  ensureField schema recordTable name (.invalidField name)

/-- A link field of the record and the table that it leads to, both added if the record does not
have the field. -/
def ensureLink (schema : Schema) (link : String) :
    Except Failure (Schema × FieldId × TableId) :=
  match schema.fieldByName? recordTable (Text.trim link) with
  | some field =>
    match field.kind with
    | .link target => .ok (schema, field.id, target)
    | _ => .error (.alreadyPlain link)
  | none => do
    let (schema, target) := schema.addTable link
    let (schema, field) ←
      (schema.addField recordTable link (.link target)).mapError (.invalidLink link)
    return (schema, field, target)

/-- A link field of the record and a field of the table that it leads to. -/
def ensureLinkedField (schema : Schema) (link name : String) :
    Except Failure (Schema × FieldId × FieldId) := do
  let (schema, linkField, target) ← ensureLink schema link
  let (schema, field) ← ensureField schema target name (.invalidLinkedField name link)
  return (schema, linkField, field)

/-- The schema with the fields that a link names. -/
def declareLink (schema : Schema) (spec : LinkSpec) : Except Failure Schema :=
  spec.fields.foldlM (fun schema name => (ensureLinkedField schema spec.link name).map (·.1)) schema

/-- The formula among the fields of the record. -/
def compile (schema : Schema) (limits : Limits) (formula : String) : Except Failure Formula :=
  (Formula.compile (schema.resolver recordTable) limits formula).mapError (.invalidFormula formula)

/-! ## Commands -/

/-- A field by name, as it is written in a formula but without escapes. -/
def fieldText (schema : Schema) (f : FieldId) : String :=
  "\x7b" ++ ((schema.field? f).map (·.name)).getD "?" ++ "\x7d"

/-- A reference by names. -/
def referenceText (schema : Schema) : Reference → String
  | .field f => fieldText schema f
  | .linked link f => fieldText schema link ++ "." ++ fieldText schema f

/-- The canonical form of a formula, what it reads, and its size. -/
def describe (schema : Schema) (formula : Formula) : String :=
  let reads := formula.references.map (referenceText schema)
  "Formula:   " ++ formula.root.toSource (schema.resolver recordTable) ++ "\n" ++
    "Reads:     " ++
      (if reads.isEmpty then "(nothing)" else String.intercalate ", " reads) ++ "\n" ++
    "Volatile:  " ++ (if formula.volatile then "yes" else "no") ++ "\n" ++
    "Size:      " ++ toString formula.root.nodeCount ++ " nodes, depth " ++
      toString formula.root.depth ++ "\n"

/-- Compiles a formula and describes it. -/
def check (limits : Limits) (formula : String) (fields links : List String) :
    Except Failure String := do
  let links ← links.mapM LinkSpec.read
  let schema ← fields.foldlM (fun schema name => (ensureRecordField schema name).map (·.1))
    startSchema
  let schema ← links.foldlM declareLink schema
  let formula ← compile schema limits formula
  return describe schema formula

/-- The schema and the record with one more value. -/
def assign (state : Schema × RecordValues) (assignment : String × Value) :
    Except Failure (Schema × RecordValues) := do
  let (schema, f) ← ensureRecordField state.1 assignment.1
  return (schema, state.2.set f assignment.2)

/-- The schema and the record with the values of one more field behind a link. -/
def assignLookup (state : Schema × RecordValues) (spec : LookupSpec) :
    Except Failure (Schema × RecordValues) := do
  let (schema, link, f) ← ensureLinkedField state.1 spec.link spec.field
  return (schema, state.2.setLinked link f spec.values)

/-- Evaluates a formula on the record that the options describe. -/
def eval (limits : Limits) (clock : Calendar.DateTime) (formula : String)
    (values lookups : List String) (now : Option String) : Except Failure Value := do
  let values ← values.mapM readAssignment
  let lookups ← lookups.mapM LookupSpec.read
  let now ← match now with
    | some text => readNow text
    | none => pure clock
  let state ← values.foldlM assign (startSchema, RecordValues.empty)
  let (schema, record) ← lookups.foldlM assignLookup state
  let formula ← compile schema limits formula
  return formula.root.eval record.view now

/-- A value on a line of its own, as text or as JSON. -/
def showValue (json : Bool) (value : Value) : String :=
  (if json then value.toJson.pretty 0 else value.toText) ++ "\n"

/-- The function library. -/
def listFunctions : String :=
  "Function library v" ++ toString Library.version ++ " (" ++
    toString Library.functions.length ++ " functions)\n" ++
    String.join (Library.functions.map fun f =>
      "  " ++ f.signature ++ (if f.volatile then "  [volatile]" else "") ++ "\n")

/-- What a command prints, for the time on the clock. -/
def Invocation.run (clock : Calendar.DateTime) (invocation : Invocation) :
    Except Failure String :=
  match invocation.command with
  | .check formula fields links => check invocation.limits formula fields links
  | .eval formula values lookups now json =>
    (eval invocation.limits clock formula values lookups now).map (showValue json)
  | .functions => .ok listFunctions

/-- How the command line ends. -/
inductive Outcome where
  | printed (text : String)
  | failed (report : String)
  /-- The arguments ask for nothing. -/
  | misused
deriving DecidableEq, Repr

/-- Runs the command line, for the time on the clock. -/
def run (clock : Calendar.DateTime) (args : List String) : Outcome :=
  match Invocation.ofArguments? args with
  | none => .misused
  | some invocation =>
    match invocation.run clock with
    | .ok text => .printed text
    | .error failure => .failed failure.report

end ComputedFields.CommandLine
