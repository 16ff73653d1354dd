import ComputedFields.Dependency.Closure
import Mathlib.Data.Set.Card
import Mathlib.Logic.Relation

/-!
# The search is exact

`reach?` finds what is reached in one or more steps from its start, each element once, and gives
up exactly when that is more than its budget.
-/

namespace ComputedFields

open Relation

variable {α : Type} {next : α → List α} {start found todo : List α} {x y : α}

/-- What is reached in one or more steps from some elements. -/
def Reached (next : α → List α) (start : List α) (y : α) : Prop :=
  ∃ x ∈ start, TransGen (fun a b => b ∈ next a) x y

theorem Reached.tail (hx : x ∈ start ∨ Reached next start x) (hy : y ∈ next x) :
    Reached next start y := by
  rcases hx with hx | ⟨s, hs, hsx⟩
  · exact ⟨x, hx, TransGen.single hy⟩
  · exact ⟨s, hs, hsx.tail hy⟩

/-! ## The state of a search -/

/-- What holds in the course of a search: all that is found is reached, and what has been passed
over has its successors among what is found. -/
structure Searching (next : α → List α) (start found todo : List α) : Prop where
  nodup : found.Nodup
  reached : ∀ y ∈ found, Reached next start y
  todo_mem : ∀ x ∈ todo, x ∈ start ∨ x ∈ found
  closed : ∀ x, x ∈ start ∨ x ∈ found → x ∉ todo → ∀ y ∈ next x, y ∈ found

theorem Searching.begin (next : α → List α) (start : List α) : Searching next start [] start where
  nodup := List.nodup_nil
  reached := by simp
  todo_mem := fun _ hx => .inl hx
  closed := by
    intro x hx hx'
    simp_all

/-- A search with nothing left to do has found all that is reached. -/
theorem Searching.mem_iff (h : Searching next start found []) :
    y ∈ found ↔ Reached next start y := by
  refine ⟨h.reached y, ?_⟩
  rintro ⟨s, hs, hsy⟩
  induction hsy with
  | single hy => exact h.closed s (.inl hs) (by simp) _ hy
  | tail _ hy ih => exact h.closed _ (.inr ih) (by simp) _ hy

variable [DecidableEq α]

/-! ## One step -/

theorem nodup_eraseDups (xs : List α) : xs.eraseDups.Nodup := by
  cases xs with
  | nil => simp
  | cons x xs =>
    rw [List.eraseDups_cons, List.nodup_cons]
    refine ⟨?_, nodup_eraseDups _⟩
    intro hx
    simp [List.mem_eraseDups] at hx
termination_by xs.length
decreasing_by
  have := List.length_filter_le (fun b => !b == x) xs
  simp only [List.length_cons]
  omega

theorem mem_freshSuccessors :
    y ∈ freshSuccessors next found x ↔ y ∈ next x ∧ y ∉ found := by
  simp [freshSuccessors, List.mem_eraseDups]

theorem nodup_freshSuccessors : (freshSuccessors next found x).Nodup :=
  (nodup_eraseDups _).filter _

theorem Searching.step (h : Searching next start found (x :: todo)) :
    Searching next start (found ++ freshSuccessors next found x)
      (todo ++ freshSuccessors next found x) where
  nodup := by
    refine List.nodup_append.mpr ⟨h.nodup, nodup_freshSuccessors, ?_⟩
    rintro a ha b hb rfl
    exact (mem_freshSuccessors.mp hb).2 ha
  reached := by
    intro y hy
    rcases List.mem_append.mp hy with hy | hy
    · exact h.reached y hy
    · have hx : x ∈ start ∨ Reached next start x :=
        (h.todo_mem x (by simp)).imp_right (h.reached x)
      exact Reached.tail hx (mem_freshSuccessors.mp hy).1
  todo_mem := by
    intro z hz
    rcases List.mem_append.mp hz with hz | hz
    · exact (h.todo_mem z (by simp [hz])).imp_right (List.mem_append_left _)
    · exact .inr (List.mem_append_right _ hz)
  closed := by
    intro z hz hz' y hy
    simp only [List.mem_append, not_or] at hz hz' ⊢
    by_cases hzx : z = x
    · subst hzx
      by_cases hyf : y ∈ found
      · exact .inl hyf
      · exact .inr (mem_freshSuccessors.mpr ⟨hy, hyf⟩)
    · -- what has been passed over before has no new successors
      have hzf : z ∈ start ∨ z ∈ found := by tauto
      exact .inl (h.closed z hzf (by simp [hzx, hz'.1]) y hy)

/-! ## Results -/

theorem reachWithin_some {budget : Nat} {all : List α} (h : Searching next start found todo)
    (hr : reachWithin next budget found todo = some all) :
    all.Nodup ∧ (∀ y, y ∈ all ↔ Reached next start y) ∧ all.length ≤ budget + found.length := by
  fun_induction reachWithin next budget found todo with
  | case1 budget found =>
    cases hr
    exact ⟨h.nodup, fun y => h.mem_iff, by omega⟩
  | case2 budget found x todo hle ih =>
    obtain ⟨hnodup, hmem, hlen⟩ := ih h.step hr
    refine ⟨hnodup, hmem, ?_⟩
    simp only [List.length_append] at hlen
    omega
  | case3 => cases hr

theorem reachWithin_none {budget : Nat} (h : Searching next start found todo)
    (hr : reachWithin next budget found todo = none) :
    ∃ many : List α, many.Nodup ∧ (∀ y ∈ many, Reached next start y) ∧
      budget + found.length < many.length := by
  fun_induction reachWithin next budget found todo with
  | case1 => cases hr
  | case2 budget found x todo hle ih =>
    obtain ⟨many, hnodup, hmem, hlen⟩ := ih h.step hr
    refine ⟨many, hnodup, hmem, ?_⟩
    simp only [List.length_append] at hlen
    omega
  | case3 budget found x todo hgt =>
    refine ⟨_, h.step.nodup, h.step.reached, ?_⟩
    simp only [List.length_append]
    omega

theorem reach?_some {budget : Nat} {all : List α} (h : reach? next budget start = some all) :
    all.Nodup ∧ (∀ y, y ∈ all ↔ Reached next start y) ∧ all.length ≤ budget := by
  simpa using reachWithin_some (Searching.begin next start) h

theorem reach?_none {budget : Nat} (h : reach? next budget start = none) :
    ∃ many : List α, many.Nodup ∧ (∀ y ∈ many, Reached next start y) ∧ budget < many.length := by
  simpa using reachWithin_none (Searching.begin next start) h

/-- The search gives up exactly when more is reached than its budget. -/
theorem reach?_eq_none_iff {budget : Nat} :
    reach? next budget start = none ↔ budget < {y | Reached next start y}.encard := by
  constructor
  · intro h
    obtain ⟨many, hnodup, hmem, hlen⟩ := reach?_none h
    have hsub : (many.toFinset : Set α) ⊆ {y | Reached next start y} := by
      intro y hy
      exact hmem y (by simpa using hy)
    calc (budget : ℕ∞) < many.length := by exact_mod_cast hlen
      _ = (many.toFinset : Set α).encard := by
        rw [Set.encard_coe_eq_coe_finsetCard, List.toFinset_card_of_nodup hnodup]
      _ ≤ _ := Set.encard_le_encard hsub
  · intro h
    cases hr : reach? next budget start with
    | none => rfl
    | some all =>
      obtain ⟨hnodup, hmem, hlen⟩ := reach?_some hr
      have heq : {y | Reached next start y} = (all.toFinset : Set α) := by
        ext y
        simp [hmem]
      rw [heq, Set.encard_coe_eq_coe_finsetCard, List.toFinset_card_of_nodup hnodup] at h
      exact absurd (by exact_mod_cast h) (Nat.not_lt.mpr hlen)

/-- A budget that is enough for all that could be reached is enough. -/
theorem reach?_isSome {budget : Nat} {possible : List α} (hlen : possible.length ≤ budget)
    (hmem : ∀ y, Reached next start y → y ∈ possible) :
    ∃ all, reach? next budget start = some all := by
  cases h : reach? next budget start with
  | some all => exact ⟨all, rfl⟩
  | none =>
    obtain ⟨many, hnodup, hreached, hlt⟩ := reach?_none h
    have hle : many.length ≤ possible.length :=
      (List.subperm_of_subset hnodup fun y hy => hmem y (hreached y hy)).length_le
    omega

end ComputedFields
