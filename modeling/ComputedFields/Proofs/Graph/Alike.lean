import ComputedFields.Dependency.Schedule
import ComputedFields.Proofs.Graph.Edits

/-!
# Graphs that look alike

All that a graph shows depends on the order of its fields and on what each of them reads. How it
came to these, and in what order its tables list them, makes no difference.
-/

namespace ComputedFields.DependencyGraph

variable {g g' : DependencyGraph}

/-- A schedule depends on which fields there are, not on how they are listed. -/
theorem schedule_congr {fs fs' : List FieldId} (hmem : ∀ f, f ∈ fs ↔ f ∈ fs') :
    g.schedule fs = g.schedule fs' := by
  rw [schedule, schedule, Ordered.ofList_congr hmem]

/-- Two graphs that edits can make, with the same fields in the same order and with the same
reads. -/
structure Alike (g g' : DependencyGraph) : Prop where
  left : g.WellFormed
  right : g'.WellFormed
  order : g'.order = g.order
  reads : ∀ f, g'.reads.get? f = g.reads.get? f

namespace Alike

theorem compareFields_eq (h : Alike g g') : g'.compareFields = g.compareFields := by
  funext a b
  simp only [compareFields, slot, h.order]

theorem sorted_eq (h : Alike g g') : g'.sorted = g.sorted := by
  funext fs
  rw [sorted, sorted, h.compareFields_eq]

theorem sortedEdges_eq (h : Alike g g') : g'.sortedEdges = g.sortedEdges := by
  funext edges
  rw [sortedEdges, sortedEdges, h.compareFields_eq]

theorem edgesFrom_eq (h : Alike g g') : g'.edgesFrom = g.edgesFrom := by
  funext f
  rw [edgesFrom, edgesFrom, h.reads]

theorem reads_eq (h : Alike g g') : g'.Reads = g.Reads := by
  funext d p
  rw [Reads, Reads, h.edgesFrom_eq]

/-- The readers of a field are those that read it, in the order of edges, so there is one way to
list them. -/
theorem edgesTo_eq (h : Alike g g') : g'.edgesTo = g.edgesTo := by
  funext p
  refine Ordered.eq_of_pairwise_lt (h.right.ascending p) (h.left.ascending p) ?_
  rintro ⟨d, kind⟩
  show (d, kind) ∈ g'.edgesTo p ↔ (d, kind) ∈ g.edgesTo p
  rw [h.right.mirrored, h.left.mirrored, h.edgesFrom_eq]

/-! ## Views -/

theorem precedents_eq (h : Alike g g') : g'.precedents = g.precedents := by
  funext f
  rw [precedents, precedents, h.sortedEdges_eq, h.edgesFrom_eq]

theorem precedentFields_eq (h : Alike g g') : g'.precedentFields = g.precedentFields := by
  funext f
  rw [precedentFields, precedentFields, h.sorted_eq, h.edgesFrom_eq]

theorem dependents_eq (h : Alike g g') : g'.dependents = g.dependents := by
  funext f
  rw [dependents, dependents, h.sortedEdges_eq, h.edgesTo_eq]

theorem dependentFields_eq (h : Alike g g') : g'.dependentFields = g.dependentFields := by
  funext f
  rw [dependentFields, dependentFields, h.sorted_eq, h.edgesTo_eq]

/-- The search for all readers has found the same ones, whatever the bound on it was. -/
theorem mem_transitiveDependents_iff (h : Alike g g') {fs : List FieldId} {d : FieldId} :
    d ∈ g'.transitiveDependents fs ↔ d ∈ g.transitiveDependents fs := by
  rw [mem_transitiveDependents h.left.mirrored, mem_transitiveDependents h.right.mirrored,
    h.reads_eq]

/-! ## Schedules -/

theorem placeReady_eq (h : Alike g g') : g'.placeReady = g.placeReady := by
  have hrelease : g'.release = g.release := by
    funext state reader
    rw [release, release, h.compareFields_eq]
  funext limit
  induction limit with
  | zero => rfl
  | succ limit ih =>
    funext waiting ready
    cases ready with
    | nil => rfl
    | cons f ready =>
      rw [placeReady, placeReady, hrelease, h.dependentFields_eq, ih]

theorem schedule_eq (h : Alike g g') : g'.schedule = g.schedule := by
  have hwaiting : g'.initialWaiting = g.initialWaiting := by
    funext fs
    simp only [initialWaiting, waitCount, h.precedentFields_eq]
  funext fs
  simp only [schedule, hwaiting, h.sorted_eq, h.placeReady_eq]

theorem recalculationOrder_eq (h : Alike g g') :
    g'.recalculationOrder = g.recalculationOrder := by
  funext fs
  rw [recalculationOrder, recalculationOrder, h.schedule_eq]
  exact schedule_congr fun d => h.mem_transitiveDependents_iff

end Alike

end ComputedFields.DependencyGraph
