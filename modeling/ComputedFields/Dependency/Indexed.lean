import ComputedFields.Dependency.Graph
import ComputedFields.Steps

/-! The tables in which a dependency graph is kept: each read at both its ends, the fields that have
a formula, and the places of fields with a counter for the next one. An edit writes one table after
the other, so that the tables agree is left to the edits. -/

namespace ComputedFields

/-- The tables of a dependency graph. -/
structure IndexedGraph where
  /-- What each field is read by. -/
  dependents : Entries FieldId (List Edge)
  /-- What each formula field reads. -/
  precedents : Entries FieldId (List Edge)
  /-- The fields that have a formula. -/
  formulas : List FieldId
  /-- The places of the fields that have been registered. -/
  order : Entries FieldId Nat
  /-- The place of the field that is registered next. -/
  nextOrder : Nat

namespace IndexedGraph

/-- The tables of the graph without fields. -/
def empty : IndexedGraph := ⟨.empty, .empty, [], .empty, 0⟩

/-! ## Views -/

/-- The order of places; fields without one come last. -/
def comparePlaces : Option Nat → Option Nat → Ordering
  | some i, some j => Ord.compare i j
  | some _, none => .lt
  | none, some _ => .gt
  | none, none => .eq

/-- The order of fields, by place and then by number. -/
def compareFields (g : IndexedGraph) (a b : FieldId) : Ordering :=
  (comparePlaces (g.order.get? a) (g.order.get? b)).then (a.compare b)

/-- Some fields in order, each once. -/
def sorted (g : IndexedGraph) (fs : List FieldId) : List FieldId :=
  Ordered.ofList g.compareFields fs

/-- The edges from a formula field to what it reads. -/
def edgesFrom (g : IndexedGraph) (f : FieldId) : List Edge := (g.precedents.get? f).getD []

/-- The edges to a field from what reads it. -/
def edgesTo (g : IndexedGraph) (f : FieldId) : List Edge := (g.dependents.get? f).getD []

/-- The fields that a formula field reads, in order. -/
def precedentFields (g : IndexedGraph) (f : FieldId) : List FieldId :=
  g.sorted ((g.edgesFrom f).map (·.1))

/-- The formula fields that read a field, in order. -/
def dependentFields (g : IndexedGraph) (f : FieldId) : List FieldId :=
  g.sorted ((g.edgesTo f).map (·.1))

/-- The cycle that a field would be on if it read `precedents`. -/
def findCycle (g : IndexedGraph) (f : FieldId) (precedents : List FieldId) :
    Option (List FieldId) :=
  match DependencyGraph.searchPath g.precedentFields f (g.precedents.size + 2) [] precedents with
  | .error path => some (f :: path)
  | .ok _ => none

/-! ## Edits -/

/-- Gives a field the next place, unless it has one. -/
def register (f : FieldId) : Steps IndexedGraph FormulaError PUnit := do
  if !(← get).order.contains f then
    modify fun g => { g with order := g.order.set f g.nextOrder }
    modify fun g => { g with nextOrder := g.nextOrder + 1 }

/-- Writes down that a field reads along some edges, which lead to some fields. -/
def writeReads (f : FieldId) (newEdges : List Edge) (newFields : List FieldId) :
    Steps IndexedGraph FormulaError DependencyDiff := do
  register f
  forM newFields register
  let oldEdges := (← get).edgesFrom f
  let oldFields := oldEdges.map (·.1)
  forM (oldEdges.filter (!newEdges.contains ·)) fun edge =>
    modify fun g => { g with dependents := DependencyGraph.dropReader f g.dependents edge }
  forM (newEdges.filter (!oldEdges.contains ·)) fun edge =>
    modify fun g => { g with dependents := DependencyGraph.addReader f g.dependents edge }
  let added := newFields.filter (!oldFields.contains ·)
  let removed := (← get).sorted (oldFields.filter (!newFields.contains ·))
  modify fun g => { g with precedents := g.precedents.set f newEdges }
  modify fun g => { g with formulas := Ordered.insert FieldId.compare f g.formulas }
  return { added, removed }

/-- Makes a field read exactly what the references say, unless it would come to read itself. -/
def setReads (f : FieldId) (references : List Reference) :
    Steps IndexedGraph FormulaError DependencyDiff := do
  let newFields := (← get).sorted ((edgesOf references).map (·.1))
  match (← get).findCycle f newFields with
  | some path => throw (.circularDependency path)
  | none => writeReads f (edgesOf references) newFields

/-- Takes a field's formula away. The fields that still read it come back in order. -/
def removeReads (f : FieldId) : Steps IndexedGraph FormulaError (List FieldId) := do
  match (← get).precedents.get? f with
  | some edges =>
    modify fun g => { g with precedents := g.precedents.erase f }
    forM edges fun edge =>
      modify fun g => { g with dependents := DependencyGraph.dropReader f g.dependents edge }
  | none => pure ⟨⟩
  modify fun g => { g with formulas := g.formulas.filter (· ≠ f) }
  return (← get).dependentFields f

end IndexedGraph

end ComputedFields
