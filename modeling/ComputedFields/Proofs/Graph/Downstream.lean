import ComputedFields.Proofs.Graph.Edits
import ComputedFields.Proofs.Graph.Schedule

/-!
# Downstream of a field

The fields downstream of a field read it, directly or through others. They are recalculated in an
order in which each comes after all that it reads in this way. An edit of what a field reads itself
leaves them the same.
-/

namespace ComputedFields

open Relation

namespace DependencyGraph

variable {g g' : DependencyGraph} {f x : FieldId} {changed order before after : List FieldId}

/-! ## Edits -/

theorem isFormula_of_downstream (h : TransGen g.Reads x f) : g.isFormula x = true := by
  obtain ⟨p, hread, -⟩ := TransGen.head'_iff.mp h
  exact hread.isFormula

/-- A chain of reads down to a field does not start with what the field reads itself, or it would
be a cycle. -/
theorem downstream_of_edit (hg' : g'.Acyclic)
    (hsame : ∀ x, x ≠ f → ∀ p, g'.Reads x p → g.Reads x p) (h : TransGen g'.Reads x f) :
    TransGen g.Reads x f := by
  rcases reads_or_through hsame h with h | ⟨-, hcycle⟩
  · exact h
  · exact absurd hcycle (hg' f)

/-- Two graphs without cycles that differ in the reads of one field only have the same fields
downstream of it. -/
theorem downstream_iff_of_edges (hg : g.Acyclic) (hg' : g'.Acyclic)
    (hsame : ∀ x, x ≠ f → g'.edgesFrom x = g.edgesFrom x) :
    TransGen g'.Reads x f ↔ TransGen g.Reads x f := by
  constructor
  · refine downstream_of_edit hg' fun x hx p ⟨kind, hedge⟩ => ⟨kind, ?_⟩
    rwa [← hsame x hx]
  · refine downstream_of_edit hg fun x hx p ⟨kind, hedge⟩ => ⟨kind, ?_⟩
    rwa [hsame x hx]

/-- An accepted edit of a field leaves the fields downstream of it the same. -/
theorem downstream_setReads (hg : g.Consistent) {references : List Reference}
    {diff : DependencyDiff} (h : g.setReads f references = .ok (g', diff)) :
    TransGen g'.Reads x f ↔ TransGen g.Reads x f := by
  obtain ⟨-, hreads, -⟩ := setReads_ok h
  refine downstream_iff_of_edges hg.acyclic (hg.setReads h).acyclic fun x hx => ?_
  rw [edgesFrom_of_reads_set hreads, if_neg hx]

/-- Taking a field's formula away leaves the fields downstream of it the same. -/
theorem downstream_removeReads (hg : g.Consistent) :
    TransGen (g.removeReads f).1.Reads x f ↔ TransGen g.Reads x f := by
  refine downstream_iff_of_edges hg.acyclic (hg.removeReads f).acyclic fun x hx => ?_
  rw [edgesFrom_removeReads, if_neg hx]

/-! ## Recalculation -/

/-- Whatever reads a field of the order belongs to the order too, so chains of reads that end
within it stay within it. -/
theorem mem_recalculationOrder_of_reads (hg : g.Mirrored) {d p : FieldId}
    (h : ∀ x, x ∈ order ↔ x ∈ g.transitiveDependents changed) (hread : g.Reads d p)
    (hp : p ∈ order) : d ∈ order := by
  rw [h, mem_transitiveDependents hg] at hp ⊢
  obtain ⟨s, hs, hps⟩ := hp
  exact ⟨s, hs, .head hread hps⟩

/-- Where nothing reads what comes later, and nothing reads itself, what a field of the list reads
stands before it. -/
theorem mem_before_of_pairwise (hg : g.Acyclic)
    (h : (before ++ f :: after).Pairwise fun a b => ¬ TransGen g.Reads a b)
    (hx : x ∈ before ++ f :: after) (hread : TransGen g.Reads f x) : x ∈ before := by
  obtain ⟨-, hafter, -⟩ := List.pairwise_append.mp h
  rcases List.mem_append.mp hx with hx | hx
  · exact hx
  · rcases List.mem_cons.mp hx with rfl | hx
    · exact absurd hread (hg x)
    · exact absurd hread ((List.pairwise_cons.mp hafter).1 x hx)

/-- After any edits, and whatever fields have changed, there is an order of recalculation. It holds
exactly the formula fields downstream of a changed field, each once, and each of them stands behind
all fields of the order that it reads, directly or through any fields. -/
theorem recalculationOrder_exact (edits : List Edit) (changed : List FieldId) :
    ∃ order, (edited edits).recalculationOrder changed = .ok order ∧ order.Nodup ∧
      (∀ d, d ∈ order ↔ (edited edits).isFormula d = true ∧
        ∃ p ∈ changed, TransGen (edited edits).Reads d p) ∧
      ∀ before d after, order = before ++ d :: after →
        ∀ p ∈ order, TransGen (edited edits).Reads d p → p ∈ before := by
  have hg : (edited edits).Consistent := (edited_wellFormed edits).toConsistent
  obtain ⟨order, hok, -⟩ := schedule_ok hg ((edited edits).transitiveDependents changed)
  obtain ⟨hnodup, hmem, hpairwise⟩ := schedule_mem hg hok
  refine ⟨order, hok, hnodup, fun d => ?_, ?_⟩
  · rw [hmem, mem_transitiveDependents hg.mirrored]
    constructor
    · rintro ⟨p, hp, hread⟩
      exact ⟨isFormula_of_downstream hread, p, hp, hread⟩
    · exact And.right
  · have hirrefl : ∀ a, ¬ (edited edits).Reads a a := fun a hread => hg.acyclic a (.single hread)
    have hchains := pairwise_transGen hnodup hirrefl hpairwise fun a b hread hb =>
      mem_recalculationOrder_of_reads hg.mirrored hmem hread hb
    rintro before d after rfl p hp hread
    exact mem_before_of_pairwise hg.acyclic hchains hp hread

end DependencyGraph

end ComputedFields
