import ComputedFields.Dependency.Graph

/-! An order for fields in which every field comes after those it reads. Each field counts how
many of the others it still waits for; the next one is always the first, in registration order,
of those that wait for none. -/

namespace ComputedFields.DependencyGraph

/-- For each field that is not placed yet, how many of the fields it waits for. -/
abbrev Waiting := Entries FieldId Nat

/-- The number of fields among `fs` that a field reads. -/
def waitCount (g : DependencyGraph) (fs : List FieldId) (f : FieldId) : Nat :=
  (g.precedentFields f).countP fs.contains

/-- What each of some fields waits for at the start. -/
def initialWaiting (g : DependencyGraph) (fs : List FieldId) : Waiting :=
  fs.foldl (fun waiting f => waiting.set f (g.waitCount fs f)) .empty

/-- A field that a reader waited for has been placed; the reader is ready when it waits for none
any more. -/
def release (g : DependencyGraph) (state : Waiting × List FieldId) (reader : FieldId) :
    Waiting × List FieldId :=
  match state.1.get? reader with
  | some (count + 1) =>
    (state.1.set reader count,
      if count = 0 then Ordered.insert g.compareFields reader state.2 else state.2)
  | _ => state

/-- Places fields one after the other while there are ready ones, at most `limit`. -/
def placeReady (g : DependencyGraph) : Nat → Waiting → List FieldId → List FieldId × Waiting
  | limit + 1, waiting, f :: ready =>
    let state := (g.dependentFields f).foldl g.release (waiting, ready)
    let placed := placeReady g limit state.1 state.2
    (f :: placed.1, placed.2)
  | _, waiting, _ => ([], waiting)

/-- The fields in an order in which every field comes after those it reads. -/
def schedule (g : DependencyGraph) (fs : List FieldId) : Except FormulaError (List FieldId) :=
  let fs := Ordered.ofList FieldId.compare fs
  let waiting := g.initialWaiting fs
  let ready := g.sorted (fs.filter fun f => waiting.get? f = some 0)
  let (placed, left) := g.placeReady fs.length waiting ready
  if placed.length < fs.length then
    .error (.circularDependency
      (g.sorted (fs.filter fun f => (left.get? f).any (0 < ·))))
  else .ok placed

/-- The formula fields that read one of some changed fields, directly or through others, each
after those it reads. -/
def recalculationOrder (g : DependencyGraph) (changed : List FieldId) :
    Except FormulaError (List FieldId) :=
  g.schedule (g.transitiveDependents changed)

end ComputedFields.DependencyGraph
