import ComputedFields.Dependency.Schedule
import ComputedFields.Engine.Cache
import ComputedFields.Formula.Compiled
import ComputedFields.Formula.Evaluation

/-! The state of an engine: a schema with the formulas of its formula fields and the reads between
them, the records, and the values computed so far. -/

namespace ComputedFields

/-- How an engine works. -/
structure EngineOptions where
  /-- The bounds on formulas. -/
  limits : Limits := {}
  /-- The greatest number of cells computed at once. -/
  maxBatchSize : Nat := 100000
  /-- Whether the records of one recomputation may be computed side by side. Here they are computed
  one after the other, and their order matters only where one reads a stale value of another. -/
  parallel : Bool := true
  /-- The time on the clock, which stands still: every read and every recomputation sees this
  instant. -/
  now : Calendar.DateTime

/-- An engine. -/
structure Engine where
  schema : Schema
  graph : DependencyGraph
  formulas : Entries FieldId Formula
  cache : ValueCache
  store : Store
  options : EngineOptions

namespace Engine

/-- An engine over a schema and some records, without formulas. -/
def new (schema : Schema) (store : Store) (options : EngineOptions) : Engine where
  schema
  graph := schema.fieldIds.foldl DependencyGraph.register .empty
  formulas := .empty
  cache := .empty
  store
  options

/-- The formula of a field. -/
def formula? (e : Engine) (f : FieldId) : Option Formula := e.formulas.get? f

/-- Whether a field has a formula. -/
def hasFormula (e : Engine) (f : FieldId) : Bool := e.formulas.contains f

end Engine

end ComputedFields
