import ComputedFields.Dependency.Closure
import ComputedFields.Entries
import ComputedFields.Formula.Error
import ComputedFields.Formula.Reference

/-! Which formula fields read which fields. The graph keeps each read twice, at the reader and at
what it reads, and the order in which fields were registered, which settles every order that the
reads leave open. It never has a cycle: reads that would close one are refused. -/

namespace ComputedFields

/-- How a formula reads a field. -/
inductive EdgeKind where
  /-- On the same record. -/
  | direct
  /-- On the records that a link field leads to. -/
  | via (link : FieldId)
deriving DecidableEq, Repr

/-- Direct reads come first, then links by their number. -/
def EdgeKind.compare : EdgeKind → EdgeKind → Ordering
  | .direct, .direct => .eq
  | .direct, .via _ => .lt
  | .via _, .direct => .gt
  | .via l, .via m => l.compare m

/-- The field at the other end of a read, and how it is read. -/
abbrev Edge := FieldId × EdgeKind

/-- The order of edges, by field and then by kind. -/
def compareEdges (a b : Edge) : Ordering := (a.1.compare b.1).then (a.2.compare b.2)

/-- The edges of a reference. Following a link reads the link field directly. -/
def Reference.edges : Reference → List Edge
  | .field f => [(f, .direct)]
  | .linked link f => [(link, .direct), (f, .via link)]

/-- The edges of some references, in order and each once. -/
def edgesOf (references : List Reference) : List Edge :=
  Ordered.ofList compareEdges (references.flatMap Reference.edges)

/-- The fields that a formula began and ceased to read. -/
structure DependencyDiff where
  added : List FieldId
  removed : List FieldId
deriving DecidableEq, Repr

/-- Which formula fields read which fields. -/
structure DependencyGraph where
  /-- The fields in the order in which they were registered. -/
  order : List FieldId
  /-- What each formula field reads. -/
  reads : Entries FieldId (List Edge)
  /-- What each field is read by. -/
  readers : Entries FieldId (List Edge)

namespace DependencyGraph

/-- The graph without fields. -/
def empty : DependencyGraph := ⟨[], .empty, .empty⟩

/-! ## Order -/

/-- Gives a field the next place in the order, unless it has one. -/
def register (g : DependencyGraph) (f : FieldId) : DependencyGraph :=
  if g.order.contains f then g else { g with order := g.order ++ [f] }

/-- The place of a field in the order; fields without one come after all that have one. -/
def slot (g : DependencyGraph) (f : FieldId) : Nat := g.order.idxOf f

/-- The order of fields, by place and then by number. -/
def compareFields (g : DependencyGraph) (a b : FieldId) : Ordering :=
  (Ord.compare (g.slot a) (g.slot b)).then (a.compare b)

/-- Some fields in order, each once. -/
def sorted (g : DependencyGraph) (fs : List FieldId) : List FieldId :=
  Ordered.ofList g.compareFields fs

/-- Some edges in order. -/
def sortedEdges (g : DependencyGraph) (edges : List Edge) : List Edge :=
  Ordered.sort (fun a b => (g.compareFields a.1 b.1).then (a.2.compare b.2)) edges

/-! ## Views -/

/-- The edges from a formula field to what it reads. -/
def edgesFrom (g : DependencyGraph) (f : FieldId) : List Edge := (g.reads.get? f).getD []

/-- The edges to a field from what reads it. -/
def edgesTo (g : DependencyGraph) (f : FieldId) : List Edge := (g.readers.get? f).getD []

/-- The fields that a formula field reads, in order, with how it reads them. -/
def precedents (g : DependencyGraph) (f : FieldId) : List Edge := g.sortedEdges (g.edgesFrom f)

/-- The formula fields that read a field, in order, with how they read it. -/
def dependents (g : DependencyGraph) (f : FieldId) : List Edge := g.sortedEdges (g.edgesTo f)

/-- The fields that a formula field reads, in order. -/
def precedentFields (g : DependencyGraph) (f : FieldId) : List FieldId :=
  g.sorted ((g.edgesFrom f).map (·.1))

/-- The formula fields that read a field, in order. -/
def dependentFields (g : DependencyGraph) (f : FieldId) : List FieldId :=
  g.sorted ((g.edgesTo f).map (·.1))

/-- Whether a field has a formula. -/
def isFormula (g : DependencyGraph) (f : FieldId) : Bool := g.reads.contains f

/-- The fields with a formula, in order. -/
def formulaFields (g : DependencyGraph) : List FieldId := g.sorted g.reads.keys

/-- The formula fields that read one of some fields, directly or through others. -/
def transitiveDependents (g : DependencyGraph) (changed : List FieldId) : List FieldId :=
  (reach? (fun f => (g.edgesTo f).map (·.1)) (g.readers.toList.flatMap (·.2)).length changed).getD []

/-! ## Cycles -/

/-- Searches for `goal` along `next` from the fields of `frontier`, depth first and passing over
`visited`. Either finds a path, the fields on the way to the goal, or tells what has been visited.
No path is longer than `limit`. -/
def searchPath (next : FieldId → List FieldId) (goal : FieldId) (limit : Nat)
    (visited frontier : List FieldId) : Except (List FieldId) (List FieldId) :=
  match limit, frontier with
  | _, [] => .ok visited
  | 0, _ => .ok visited
  | limit + 1, f :: rest =>
    if f = goal then .error []
    else if visited.contains f then searchPath next goal (limit + 1) visited rest
    else
      match searchPath next goal limit (f :: visited) (next f) with
      | .error path => .error (f :: path)
      | .ok visited => searchPath next goal (limit + 1) visited rest
termination_by (limit, frontier.length)

/-- The cycle that a field would be on if it read `precedents`: itself, and then fields each of
which is read by the one before it. -/
def findCycle (g : DependencyGraph) (f : FieldId) (precedents : List FieldId) :
    Option (List FieldId) :=
  match searchPath g.precedentFields f (g.reads.size + 2) [] precedents with
  | .error path => some (f :: path)
  | .ok _ => none

/-! ## Changes -/

/-- Notes at a field that it is read. -/
def addReader (reader : FieldId) (readers : Entries FieldId (List Edge)) (edge : Edge) :
    Entries FieldId (List Edge) :=
  readers.set edge.1
    (Ordered.insert compareEdges (reader, edge.2) ((readers.get? edge.1).getD []))

/-- Notes at a field that it is no longer read. -/
def dropReader (reader : FieldId) (readers : Entries FieldId (List Edge)) (edge : Edge) :
    Entries FieldId (List Edge) :=
  match readers.get? edge.1 with
  | none => readers
  | some edges =>
    let left := edges.filter fun e => e ≠ (reader, edge.2)
    if left.isEmpty then readers.erase edge.1 else readers.set edge.1 left

/-- Makes a field read exactly what the references say. Refused, with nothing changed, if the
field would come to read itself. -/
def setReads (g : DependencyGraph) (f : FieldId) (references : List Reference) :
    Except FormulaError (DependencyGraph × DependencyDiff) :=
  let newEdges := edgesOf references
  let newFields := g.sorted (newEdges.map (·.1))
  match g.findCycle f newFields with
  | some path => .error (.circularDependency path)
  | none =>
    let oldEdges := g.edgesFrom f
    let oldFields := oldEdges.map (·.1)
    let registered := newFields.foldl register (g.register f)
    let dropped := (oldEdges.filter (!newEdges.contains ·)).foldl (dropReader f) g.readers
    let readers := (newEdges.filter (!oldEdges.contains ·)).foldl (addReader f) dropped
    .ok
      ({ registered with reads := g.reads.set f newEdges, readers },
        { added := newFields.filter (!oldFields.contains ·)
          removed := registered.sorted (oldFields.filter (!newFields.contains ·)) })

/-- Takes a field's formula away. The fields that still read it come back in order. -/
def removeReads (g : DependencyGraph) (f : FieldId) : DependencyGraph × List FieldId :=
  let left := { g with
    reads := g.reads.erase f
    readers := (g.edgesFrom f).foldl (dropReader f) g.readers }
  (left, left.dependentFields f)

end DependencyGraph

end ComputedFields
