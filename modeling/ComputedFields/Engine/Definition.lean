import ComputedFields.Engine.State

/-! Changes of an engine's schema and formulas. Each either succeeds and drops the computed values
that it may have changed, or fails and changes nothing. -/

namespace ComputedFields.Engine

/-- Adds a field. -/
def addField (e : Engine) (table : TableId) (name : String) (kind : FieldKind) :
    Except SchemaError (Engine × FieldId) :=
  (e.schema.addField table name kind).map fun (schema, f) =>
    ({ e with schema, graph := e.graph.register f }, f)

/-- The formula that a source text describes among the fields of a table. -/
def compile (e : Engine) (table : TableId) (source : String) : Except FormulaError Formula :=
  Formula.compile (e.schema.resolver table) e.options.limits source

/-- A field has to belong to a table. -/
def checkOwner (schema : Schema) (f : FieldId) (table : TableId) : Except FormulaError Unit :=
  if (schema.field? f).map (·.table) = some table then .ok () else .error (.foreignField f table)

/-- A reference has to read a field of the formula's table, or one that a link field of that
table leads to. -/
def checkReference (schema : Schema) (table : TableId) : Reference → Except FormulaError Unit
  | .field f => checkOwner schema f table
  | .linked link f => do
    checkOwner schema link table
    match schema.linkTarget? link with
    | some target => checkOwner schema f target
    | none => .error (.foreignField link table)

/-- All references have to read fields that the formula's table has a way to. -/
def checkReferences (schema : Schema) (table : TableId) :
    List Reference → Except FormulaError Unit
  | [] => .ok ()
  | reference :: rest => do
    checkReference schema table reference
    checkReferences schema table rest

/-- Drops the computed values of a field and of all formulas that read it, directly or through
others. -/
def dropStale (e : Engine) (graph : DependencyGraph) (f : FieldId) : ValueCache :=
  (e.cache.invalidateFields (f :: graph.transitiveDependents [f])).1

/-- The table of a field that may have a formula. -/
def formulaTable? (e : Engine) (f : FieldId) : Option TableId :=
  if e.schema.isFormula f then (e.schema.field? f).map (·.table) else none

/-- Gives a formula field a formula, in place of the one it has. Refused if the formula reads
what its table has no way to, or would make the field read itself. -/
def register (e : Engine) (f : FieldId) (formula : Formula) :
    Except FormulaError (Engine × DependencyDiff) :=
  match e.formulaTable? f with
  | none => .error (.noFormula f)
  | some table => do
    checkReferences e.schema table formula.references
    let (graph, diff) ← e.graph.setReads f formula.references
    return ({ e with
      graph
      formulas := e.formulas.set f formula
      cache := e.dropStale graph f }, diff)

/-- Gives a formula field the formula that a source text describes. -/
def define (e : Engine) (f : FieldId) (source : String) :
    Except FormulaError (Engine × DependencyDiff) :=
  match e.schema.field? f with
  | none => .error (.noFormula f)
  | some field => do
    let formula ← e.compile field.table source
    e.register f formula

/-- Takes a field's formula away; the formulas that still read the field come back in order, and
see its stored value from then on. -/
def remove (e : Engine) (f : FieldId) : Except FormulaError (Engine × List FieldId) :=
  if e.hasFormula f then
    let (graph, readers) := e.graph.removeReads f
    .ok ({ e with
      graph
      formulas := e.formulas.erase f
      cache := e.dropStale e.graph f }, readers)
  else .error (.noFormula f)

end ComputedFields.Engine
