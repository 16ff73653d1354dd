import ComputedFields.Proofs.Graph.Cycles
import ComputedFields.Proofs.Graph.Schedule
import Mathlib.Data.List.Dedup

/-!
# The canonical schedule

`schedule` gives the one order in which every field comes after those of the set that it reads and
the field that is registered first goes first wherever there is a choice. It comes to it by counting
down: a reader is taken off the count of what it waits for only while it waits for something.
-/

namespace ComputedFields

namespace DependencyGraph

variable {g : DependencyGraph} {fs done ready placed : List FieldId} {f x : FieldId}
  {waiting : Waiting}

/-! ## Counts that stay at zero or above -/

/-- A step of the scheduler; none if the count of the reader would go below zero. -/
def release? (g : DependencyGraph) (state : Waiting × List FieldId) (reader : FieldId) :
    Option (Waiting × List FieldId) :=
  if state.1.get? reader = some 0 then none else some (g.release state reader)

/-- What the scheduler places, and the counts in the end; none if a count would go below zero on
the way. -/
def placeReady? (g : DependencyGraph) :
    Nat → Waiting → List FieldId → Option (List FieldId × Waiting)
  | limit + 1, waiting, f :: ready => do
    let state ← (g.dependentFields f).foldlM g.release? (waiting, ready)
    let placed ← placeReady? g limit state.1 state.2
    return (f :: placed.1, placed.2)
  | _, waiting, _ => some ([], waiting)

/-- The fields in the order in which the scheduler places them; none if a count would go below zero
on the way. -/
def countdown? (g : DependencyGraph) (fs : List FieldId) : Option (List FieldId) :=
  let fs := Ordered.ofList FieldId.compare fs
  let waiting := g.initialWaiting fs
  let ready := g.sorted (fs.filter fun f => waiting.get? f = some 0)
  (g.placeReady? fs.length waiting ready).map (·.1)

/-- Readers that all wait for something, or are not waiting, can be released one after the other:
the release of one leaves the counts of the others alone. -/
theorem foldlM_release? {state : Waiting × List FieldId} {rs : List FieldId} (hnodup : rs.Nodup)
    (hwait : ∀ r ∈ rs, state.1.get? r ≠ some 0) :
    rs.foldlM g.release? state = some (rs.foldl g.release state) := by
  induction rs generalizing state with
  | nil => rfl
  | cons r rs ih =>
    obtain ⟨hr, hrs⟩ := List.nodup_cons.mp hnodup
    obtain ⟨hfirst, hothers⟩ := List.forall_mem_cons.mp hwait
    have hstep : g.release? state r = some (g.release state r) := if_neg hfirst
    have hkept : ∀ x ∈ rs, (g.release state r).1.get? x ≠ some 0 := by
      intro x hx
      have hne : x ≠ r := fun heq => hr (heq ▸ hx)
      rw [get?_release, if_neg hne]
      exact hothers x hx
    rw [List.foldlM_cons, hstep, List.foldl_cons]
    exact ih hrs hkept

/-- Each reader of the next field waits for that field at least. -/
theorem Placing.reader_waits (hg : g.Mirrored) (h : Placing g fs done waiting (f :: ready))
    (hx : x ∈ g.dependentFields f) : waiting.get? x ≠ some 0 := by
  obtain ⟨hffs, hfnew, -⟩ : g.Free fs done f := (h.mem_ready f).mp (by simp)
  have hcount := missing_cons hg hffs hfnew x
  rw [if_pos hx] at hcount
  rw [h.waits]
  split
  · intro hzero
    have hmissing : g.missing fs done x = 0 := Option.some.inj hzero
    omega
  · simp

theorem Placing.placeReady?_eq (hg : g.Mirrored) (limit : Nat)
    (h : Placing g fs done waiting ready) :
    g.placeReady? limit waiting ready = some (g.placeReady limit waiting ready) := by
  induction limit generalizing done waiting ready with
  | zero => rfl
  | succ limit ih =>
    cases ready with
    | nil => rfl
    | cons f ready =>
      have hreleased : (g.dependentFields f).foldlM g.release? (waiting, ready) =
          some ((g.dependentFields f).foldl g.release (waiting, ready)) :=
        foldlM_release? (Ordered.nodup_ofList _) fun r hr => h.reader_waits hg hr
      have hrest := ih (h.step hg)
      rw [placeReady?, placeReady]
      simp only [hreleased, hrest, Option.bind_eq_bind, Option.bind_some, Option.pure_def]

/-! ## The canonical order -/

/-- After any edits, any fields have a schedule: each of them once, in the one order in which a field
stands behind all that it reads among them and is the first in the order of registration, fields
that are not registered last and by number, of all that could stand in its place. No count goes
below zero on the way. -/
theorem schedule_canonical (edits : List Edit) (fs : List FieldId) :
    ∃ placed, (edited edits).schedule fs = .ok placed ∧
      (edited edits).countdown? fs = some placed ∧
      placed.Perm fs.dedup ∧
      ∀ before f after, placed = before ++ f :: after →
        (∀ p ∈ fs, (edited edits).Reads f p → p ∈ before) ∧
        ∀ x ∈ fs, x ∉ before → (∀ p ∈ fs, (edited edits).Reads x p → p ∈ before) →
          x = f ∨ (edited edits).slot f < (edited edits).slot x ∨
            (edited edits).slot f = (edited edits).slot x ∧ f.index < x.index := by
  have hg := edited_wellFormed edits
  obtain ⟨placed, hok, hplaces⟩ := schedule_ok hg.toConsistent fs
  obtain ⟨hnodup, hmem, -⟩ := schedule_mem hg.toConsistent hok
  refine ⟨placed, hok, ?_, ?_, ?_⟩
  · have hcounts := (Placing.begin (edited edits) (Ordered.ofList FieldId.compare fs)).placeReady?_eq
      hg.mirrored (Ordered.ofList FieldId.compare fs).length
    rw [schedule] at hok
    simp only at hok
    split at hok
    · cases hok
    · cases hok
      rw [countdown?]
      simp only [hcounts, Option.map_some]
  · refine (List.perm_ext_iff_of_nodup hnodup (List.nodup_dedup fs)).mpr fun x => ?_
    rw [hmem, List.mem_dedup]
  · rintro before f after rfl
    obtain ⟨hfree, hfirst⟩ := hplaces.split
    simp only [Free, Ordered.mem_ofList, List.append_nil, List.mem_reverse] at hfree hfirst
    refine ⟨hfree.2.2, fun x hx hnew hreads => ?_⟩
    rw [← compareFields_eq_lt]
    exact hfirst x ⟨hx, hnew, hreads⟩

end DependencyGraph

end ComputedFields
