import ComputedFields.Calendar.Duration
import Mathlib.Algebra.Group.Int.Defs
import Mathlib.Algebra.Group.Nat.Defs

/-!
# Spans in whole milliseconds

A number of milliseconds makes a span unless it is out of range. The milliseconds of a span are
never out of range, and make the span without what is left of a millisecond.
-/

namespace ComputedFields.Calendar.Duration

variable {s : Duration} {millis : Int}

theorem nanos_of_ofMillis? (h : ofMillis? millis = some s) : s.nanos = millis * 1000000 := by
  rw [ofMillis?, ofNanos?] at h
  split at h
  · cases h
    rfl
  · cases h

theorem natAbs_millis (s : Duration) : s.millis.natAbs < 2 ^ 63 := by
  have hge := s.ge
  have hle := s.le
  rw [limit] at hge hle
  rw [Duration.millis, Int.natAbs_tdiv]
  show s.nanos.natAbs / 1000000 < 2 ^ 63
  omega

theorem millis_bounds (s : Duration) : -(2 ^ 63 - 1) ≤ s.millis ∧ s.millis ≤ 2 ^ 63 - 1 := by
  have h := s.natAbs_millis
  omega

theorem ofMillis?_eq_none_iff :
    ofMillis? millis = none ↔ millis < -(2 ^ 63 - 1) ∨ 2 ^ 63 - 1 < millis := by
  rw [ofMillis?, ofNanos?]
  split
  · rename_i hfits
    rw [limit] at hfits
    refine iff_of_false nofun ?_
    omega
  · rename_i hfar
    rw [limit] at hfar
    refine iff_of_true rfl ?_
    omega

/-- The span without what is left of a millisecond, toward zero. -/
def wholeMillis (s : Duration) : Duration where
  nanos := s.millis * 1000000
  ge := by
    have h := s.millis_bounds
    rw [limit]
    omega
  le := by
    have h := s.millis_bounds
    rw [limit]
    omega

theorem ofMillis?_millis (s : Duration) : ofMillis? s.millis = some s.wholeMillis :=
  dif_pos ⟨s.wholeMillis.ge, s.wholeMillis.le⟩

/-- A span made of milliseconds is whole. -/
theorem wholeMillis_of_ofMillis? (h : ofMillis? millis = some s) : s.wholeMillis = s := by
  have hnanos := nanos_of_ofMillis? h
  have hmillis : s.millis = millis := by
    rw [Duration.millis, hnanos]
    exact Int.mul_tdiv_cancel millis (by decide)
  simp only [wholeMillis, hmillis, ← hnanos]

end ComputedFields.Calendar.Duration
