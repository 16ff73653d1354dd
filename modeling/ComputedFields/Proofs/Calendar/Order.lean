import ComputedFields.Proofs.Calendar.DayNumber
import ComputedFields.Proofs.Ordering

/-!
# The order of instants

Dates are in the order of their day numbers, and instants in that of the day, the second in it and
the fraction of the second, which goes up to two seconds in a leap second.
-/

namespace ComputedFields.Calendar

open Std

/-! ## Dates -/

namespace Date

variable {a b : Date} {month month' : Nat}

theorem compare_eq_lt : a.compare b = .lt ↔
    a.year < b.year ∨ a.year = b.year ∧ (a.month < b.month ∨ a.month = b.month ∧ a.day < b.day) := by
  simp only [compare, Ordering.then_eq_lt, Int.compare_eq_lt, Int.compare_eq_eq,
    Nat.compare_eq_lt, Nat.compare_eq_eq]

theorem compare_eq_eq : a.compare b = .eq ↔ a = b := by
  simp only [compare, Ordering.then_eq_eq, Int.compare_eq_eq, Nat.compare_eq_eq]
  constructor
  · rintro ⟨hyear, hmonth, hday⟩
    cases a
    cases b
    cases hyear
    cases hmonth
    cases hday
    rfl
  · rintro rfl
    exact ⟨rfl, rfl, rfl⟩

theorem compare_swap (a b : Date) : (a.compare b).swap = b.compare a := by
  simp only [compare, Ordering.swap_then, Int.compare_swap, Nat.compare_swap]

theorem yearStart_mono {year year' : Int} (h : year ≤ year') : yearStart year ≤ yearStart year' := by
  unfold yearStart
  omega

/-- The months up to the first of a later one are the earlier one and more. -/
theorem daysBefore_add_le (leap : Bool) (h : 1 ≤ month) (hlt : month < month') :
    daysBefore leap month + daysInMonth leap month ≤ daysBefore leap month' := by
  induction hlt with
  | refl => exact Nat.le_of_eq (daysBefore_succ leap h).symm
  | step hle ih =>
    rw [daysBefore_succ leap (Nat.le_trans (Nat.succ_pos month) hle)]
    exact Nat.le_add_right_of_le ih

theorem ordinal_le_daysInYear (d : Date) : d.ordinal ≤ daysInYear (isLeap d.year) := by
  have hday := d.day_le
  have hyear : daysBefore (isLeap d.year) (12 + 1) = daysInYear (isLeap d.year) := by
    cases isLeap d.year <;> rfl
  have hmonth := daysBefore_add_le (isLeap d.year) d.month_pos
    (Nat.lt_add_one_of_le d.month_le)
  rw [ordinal]
  omega

theorem dayNumber_lt (h : a.compare b = .lt) : a.dayNumber < b.dayNumber := by
  rw [dayNumber, dayNumber]
  rcases compare_eq_lt.mp h with hyear | ⟨hyear, hwithin⟩
  · have ha := a.ordinal_le_daysInYear
    have hb := b.ordinal_pos
    have hstart := yearStart_mono (Int.add_one_le_of_lt hyear)
    rw [yearStart_succ] at hstart
    omega
  · have hday := a.day_le
    rw [ordinal, ordinal, hyear]
    rw [hyear] at hday
    rcases hwithin with hmonth | ⟨hmonth, hless⟩
    · have hmonths := daysBefore_add_le (isLeap b.year) a.month_pos hmonth
      have hb := b.day_pos
      omega
    · rw [hmonth]
      omega

/-- Dates are in the order of their day numbers. -/
theorem compare_eq (a b : Date) : a.compare b = Ord.compare a.dayNumber b.dayNumber := by
  cases h : a.compare b with
  | lt => exact (Int.compare_eq_lt.mpr (dayNumber_lt h)).symm
  | eq =>
    rw [compare_eq_eq.mp h]
    exact (Int.compare_eq_eq.mpr rfl).symm
  | gt =>
    have hswap : b.compare a = .lt := by rw [← compare_swap, h]; rfl
    exact (Int.compare_eq_gt.mpr (dayNumber_lt hswap)).symm

end Date

/-! ## Instants -/

/-- Two orders one after the other are the order of one number, when the second one is that of
numbers below a bound. -/
theorem compare_then {x x' : Int} {n n' bound : Nat} (h : n < bound) (h' : n' < bound) :
    (Ord.compare x x').then (Ord.compare n n') =
      Ord.compare (x * bound + n) (x' * bound + n') := by
  have hless {x x' : Int} {n n' : Nat} (hx : x < x') (h : n < bound) :
      x * bound + n < x' * bound + n' := by
    have hmul := Int.mul_le_mul_of_nonneg_right (Int.add_one_le_of_lt hx) (Int.natCast_nonneg bound)
    rw [Int.add_mul] at hmul
    omega
  rcases Int.lt_trichotomy x x' with hx | rfl | hx
  · rw [Int.compare_eq_lt.mpr hx, Int.compare_eq_lt.mpr (hless hx h)]
    rfl
  · rw [Int.compare_eq_eq.mpr rfl]
    rcases Nat.lt_trichotomy n n' with hn | rfl | hn
    · rw [Nat.compare_eq_lt.mpr hn, Int.compare_eq_lt.mpr (by omega)]
      rfl
    · rw [Nat.compare_eq_eq.mpr rfl, Int.compare_eq_eq.mpr rfl]
      rfl
    · rw [Nat.compare_eq_gt.mpr hn, Int.compare_eq_gt.mpr (by omega)]
      rfl
  · rw [Int.compare_eq_gt.mpr hx, Int.compare_eq_gt.mpr (hless hx h')]
    rfl

namespace DateTime

variable {a b : DateTime}

/-- A number in whose order instants are, leap seconds included. -/
def rank (d : DateTime) : Int :=
  (d.date.dayNumber * secondsPerDay + d.time.seconds) * (2 * nanosPerSecond : Nat) + d.time.nanos

theorem compare_eq (a b : DateTime) : a.compare b = Ord.compare a.rank b.rank := by
  rw [compare, TimeOfDay.compare, Date.compare_eq, ← Ordering.then_assoc,
    compare_then a.time.seconds_lt b.time.seconds_lt,
    compare_then a.time.nanos_lt b.time.nanos_lt]
  rfl

theorem compare_eq_eq : a.compare b = .eq ↔ a = b := by
  obtain ⟨date, ⟨seconds, nanos, _, _⟩⟩ := a
  obtain ⟨date', ⟨seconds', nanos', _, _⟩⟩ := b
  simp [compare, TimeOfDay.compare, Ordering.then_eq_eq, Date.compare_eq_eq]

instance : TransCmp DateTime.compare := transCmp_of_key rank compare_eq

end DateTime

instance : TransCmp Duration.compare := transCmp_of_key Duration.nanos fun _ _ => rfl

theorem Duration.compare_eq_eq {a b : Duration} : a.compare b = .eq ↔ a = b := by
  cases a
  cases b
  simp [Duration.compare]

end ComputedFields.Calendar
