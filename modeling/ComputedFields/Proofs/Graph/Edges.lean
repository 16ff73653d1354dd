import ComputedFields.Proofs.Closure
import ComputedFields.Proofs.Ordering

/-!
# The edges of a dependency graph

Both tables of a graph hold the same edges, each seen from its two ends, and every edit keeps
them so. `Reads` is the relation behind them: a formula field reads a field.
-/

namespace ComputedFields

open Relation

/-! ## Edges of references -/

theorem mem_edgesOf {references : List Reference} {edge : Edge} :
    edge ∈ edgesOf references ↔ ∃ reference ∈ references, edge ∈ reference.edges := by
  simp [edgesOf, Ordered.mem_ofList, List.mem_flatMap]

namespace DependencyGraph

variable {g g' : DependencyGraph} {f p d : FieldId} {kind : EdgeKind}

/-- A formula field reads a field in some way. -/
def Reads (g : DependencyGraph) (f p : FieldId) : Prop := ∃ kind, (p, kind) ∈ g.edgesFrom f

/-- Both tables hold the same edges. -/
def Mirrored (g : DependencyGraph) : Prop :=
  ∀ p d kind, (d, kind) ∈ g.edgesTo p ↔ (p, kind) ∈ g.edgesFrom d

/-- No field reads itself, directly or through others. -/
def Acyclic (g : DependencyGraph) : Prop := ∀ f, ¬ TransGen g.Reads f f

theorem Reads.isFormula (h : g.Reads f p) : g.isFormula f = true := by
  obtain ⟨kind, h⟩ := h
  cases hf : g.reads.get? f with
  | none => simp [edgesFrom, hf] at h
  | some edges => exact Entries.contains_of_get? hf

/-! ## The order of fields -/

instance (g : DependencyGraph) : Std.LawfulEqCmp g.compareFields where
  compare_self := by
    intro a
    simp [compareFields, Std.ReflCmp.compare_self]
  eq_of_compare := by
    intro a b h
    rw [compareFields, Ordering.then_eq_eq] at h
    exact Std.LawfulEqCmp.eq_of_compare h.2

instance (g : DependencyGraph) : Std.TransCmp g.compareFields := by
  have h : Std.TransCmp (compareLex (compareOn g.slot) FieldId.compare) := inferInstance
  exact h

theorem mem_sorted {fs : List FieldId} : f ∈ g.sorted fs ↔ f ∈ fs := Ordered.mem_ofList

theorem mem_sortedEdges {edges : List Edge} {edge : Edge} :
    edge ∈ g.sortedEdges edges ↔ edge ∈ edges := Ordered.mem_sort

/-! ## Views -/

theorem mem_precedents {edge : Edge} : edge ∈ g.precedents f ↔ edge ∈ g.edgesFrom f :=
  mem_sortedEdges

theorem mem_dependents {edge : Edge} : edge ∈ g.dependents f ↔ edge ∈ g.edgesTo f :=
  mem_sortedEdges

theorem mem_precedentFields : p ∈ g.precedentFields f ↔ g.Reads f p := by
  simp [precedentFields, mem_sorted, Reads]

theorem mem_dependentFields (h : g.Mirrored) : d ∈ g.dependentFields p ↔ g.Reads d p := by
  simp [dependentFields, mem_sorted, Reads, h p d]

theorem mem_map_edgesTo (h : g.Mirrored) : d ∈ (g.edgesTo p).map (·.1) ↔ g.Reads d p := by
  simp [Reads, h p d]

/-! ## What reads a field through others -/

/-- What the search for readers may find at most: the readers in the table. -/
theorem mem_readers_of_reached {start : List FieldId}
    (h : Reached (fun f => (g.edgesTo f).map (·.1)) start d) :
    d ∈ (g.readers.toList.flatMap (·.2)).map (·.1) := by
  obtain ⟨s, _, hsd⟩ := h
  obtain ⟨p, _, hd⟩ := TransGen.tail'_iff.mp hsd
  cases hp : g.readers.get? p with
  | none => simp [edgesTo, hp] at hd
  | some edges =>
    simp only [edgesTo, hp, Option.getD_some] at hd
    obtain ⟨edge, hedge, rfl⟩ := List.mem_map.mp hd
    refine List.mem_map_of_mem (List.mem_flatMap.mpr ⟨(p, edges), ?_, hedge⟩)
    exact Entries.mem_toList_of_get? hp

theorem mem_transitiveDependents (h : g.Mirrored) {changed : List FieldId} :
    d ∈ g.transitiveDependents changed ↔ ∃ p ∈ changed, TransGen g.Reads d p := by
  obtain ⟨all, hall⟩ := reach?_isSome (Nat.le_of_eq (List.length_map _))
    fun y (hy : Reached (fun f => (g.edgesTo f).map (·.1)) changed y) => mem_readers_of_reached hy
  have hrel : (fun a b => b ∈ (g.edgesTo a).map (·.1)) = Function.swap g.Reads := by
    funext a b
    exact propext (mem_map_edgesTo h)
  rw [transitiveDependents, hall, Option.getD_some, (reach?_some hall).2.1]
  simp only [Reached, hrel, transGen_swap]

/-! ## Edits -/

/-- The edges to a field in a table of readers. -/
def readersOf (readers : Entries FieldId (List Edge)) (p : FieldId) : List Edge :=
  (readers.get? p).getD []

theorem mem_readersOf_addReader {readers : Entries FieldId (List Edge)} {edge added : Edge} :
    edge ∈ readersOf (addReader f readers added) p ↔
      edge ∈ readersOf readers p ∨ edge.1 = f ∧ (p, edge.2) = added := by
  obtain ⟨a, kind⟩ := added
  obtain ⟨d, kind'⟩ := edge
  by_cases hp : p = a
  · subst hp
    simp [readersOf, addReader, Ordered.mem_insert, or_comm]
  · simp [readersOf, addReader, hp]

theorem readersOf_dropReader (readers : Entries FieldId (List Edge)) (a : FieldId)
    (kind : EdgeKind) :
    readersOf (dropReader f readers (a, kind)) p =
      if p = a then (readersOf readers a).filter fun e => e ≠ (f, kind)
      else readersOf readers p := by
  rw [dropReader]
  cases ha : readers.get? a with
  | none =>
    by_cases hp : p = a
    · subst hp
      simp [readersOf, ha]
    · simp [hp]
  | some edges =>
    simp only
    split
    · rename_i hempty
      by_cases hp : p = a
      · subst hp
        simp only [readersOf, Entries.get?_erase, if_true, ha, Option.getD_none, Option.getD_some]
        exact (List.isEmpty_iff.mp hempty).symm
      · simp [readersOf, hp]
    · by_cases hp : p = a
      · simp [readersOf, hp, ha]
      · simp [readersOf, hp]

theorem mem_readersOf_dropReader {readers : Entries FieldId (List Edge)} {edge dropped : Edge} :
    edge ∈ readersOf (dropReader f readers dropped) p ↔
      edge ∈ readersOf readers p ∧ ¬ (edge.1 = f ∧ (p, edge.2) = dropped) := by
  obtain ⟨a, kind⟩ := dropped
  obtain ⟨d, kind'⟩ := edge
  rw [readersOf_dropReader]
  split
  · rename_i hp
    subst hp
    rw [List.mem_filter, decide_eq_true_eq]
    simp
  · rename_i hp
    simp [hp]

theorem mem_readersOf_foldl_addReader {readers : Entries FieldId (List Edge)}
    {edges : List Edge} {edge : Edge} :
    edge ∈ readersOf (edges.foldl (addReader f) readers) p ↔
      edge ∈ readersOf readers p ∨ edge.1 = f ∧ (p, edge.2) ∈ edges := by
  induction edges generalizing readers with
  | nil => simp
  | cons e es ih =>
    rw [List.foldl_cons, ih, mem_readersOf_addReader, List.mem_cons]
    tauto

theorem mem_readersOf_foldl_dropReader {readers : Entries FieldId (List Edge)}
    {edges : List Edge} {edge : Edge} :
    edge ∈ readersOf (edges.foldl (dropReader f) readers) p ↔
      edge ∈ readersOf readers p ∧ ¬ (edge.1 = f ∧ (p, edge.2) ∈ edges) := by
  induction edges generalizing readers with
  | nil => simp
  | cons e es ih =>
    rw [List.foldl_cons, ih, mem_readersOf_dropReader, List.mem_cons]
    tauto

end DependencyGraph

end ComputedFields
