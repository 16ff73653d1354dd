import ComputedFields.Proofs.Library.DateSteps

/-!
# Differences of dates in either order

The difference of two dates changes its sign when they change places, and does not decrease when the
first of them is a later one. Whole months are counted by the months of the calendar, corrected
where the day and time in the month is not reached; the same correction serves both directions.
-/

namespace ComputedFields

/-! ## Instants within their months -/

namespace Calendar.DateTime

variable {a b : DateTime}

/-- A number in whose order the instants of a month are. -/
def withinMonth (d : DateTime) : ℕ :=
  (d.date.day * secondsPerDay + d.time.seconds) * (2 * nanosPerSecond) + d.time.nanos

/-- Instants are in the order of their months, and within a month in that of day and time. -/
theorem compare_isLT_iff : (a.compare b).isLT = true ↔
    a.date.monthIndex < b.date.monthIndex ∨
      a.date.monthIndex = b.date.monthIndex ∧ a.withinMonth < b.withinMonth := by
  have hmonth := a.date.month_pos
  have hmonth' := b.date.month_pos
  have hlast := a.date.month_le
  have hlast' := b.date.month_le
  have hseconds := a.time.seconds_lt
  have hseconds' := b.time.seconds_lt
  have hnanos := a.time.nanos_lt
  have hnanos' := b.time.nanos_lt
  simp only [secondsPerDay, nanosPerSecond] at *
  simp only [compare, Date.compare, TimeOfDay.compare, Ordering.isLT_iff_eq_lt,
    Ordering.then_eq_lt, Ordering.then_eq_eq, Int.compare_eq_lt, Int.compare_eq_eq,
    Nat.compare_eq_lt, Nat.compare_eq_eq, Date.monthIndex, withinMonth, secondsPerDay,
    nanosPerSecond]
  omega

theorem position_mono (ha : a.time.isLeap = false) (hb : b.time.isLeap = false)
    (h : (a.compare b).isLE = true) : a.position ≤ b.position := by
  have hrank : a.rank ≤ b.rank := by
    rw [compare_eq, Ordering.isLE_iff_ne_gt] at h
    exact not_lt.mp fun hlt => h (Int.compare_eq_gt.mpr hlt)
  rw [TimeOfDay.isLeap, decide_eq_false_iff_not] at ha hb
  simp only [rank, position, secondsPerDay, nanosPerSecond] at *
  omega

end Calendar.DateTime

namespace Library

open Calendar (DateTime Date)

variable {a b c : Value} {d e f : DateTime} {rest : List Value} {unit : TimeUnit}

theorem earlierInMonth_iff : earlierInMonth d e = true ↔ d.withinMonth < e.withinMonth := by
  have hseconds := d.time.seconds_lt
  have hseconds' := e.time.seconds_lt
  have hnanos := d.time.nanos_lt
  have hnanos' := e.time.nanos_lt
  simp only [Calendar.secondsPerDay, Calendar.nanosPerSecond] at *
  simp only [earlierInMonth, Calendar.TimeOfDay.compare, Ordering.isLT_iff_eq_lt,
    Ordering.then_eq_lt, Nat.compare_eq_lt, Nat.compare_eq_eq, DateTime.withinMonth,
    Calendar.secondsPerDay, Calendar.nanosPerSecond]
  omega

/-! ## Whole months -/

theorem monthsBetween_antisymm (d e : DateTime) : monthsBetween d e = -monthsBetween e d := by
  simp only [monthsBetween, monthsSince_eq, DateTime.compare_isLT_iff, earlierInMonth_iff]
  split_ifs <;> omega

theorem monthsBetween_mono (h : (d.compare e).isLE = true) (f : DateTime) :
    monthsBetween d f ≤ monthsBetween e f := by
  have hnot : ¬ (e.compare d).isLT = true := by
    have hswap : e.compare d = (d.compare e).swap := Std.OrientedCmp.eq_swap
    rw [hswap]
    revert h
    cases d.compare e <;> decide
  rw [DateTime.compare_isLT_iff] at hnot
  simp only [monthsBetween, monthsSince_eq, DateTime.compare_isLT_iff, earlierInMonth_iff]
  split_ifs <;> omega

/-! ## Whole units -/

theorem nanos_since (hd : d.time.isLeap = false) (he : e.time.isLeap = false) :
    (d.since e).nanos = d.position - e.position := DateTime.nanosSince_eq hd he

theorem dateDifference_antisymm (hd : d.time.isLeap = false) (he : e.time.isLeap = false)
    (unit : TimeUnit) : dateDifference d e unit = -dateDifference e d unit := by
  rw [dateDifference, dateDifference]
  cases unit.length with
  | millis n =>
    have hnanos : (d.since e).nanos = -(e.since d).nanos := by
      rw [nanos_since hd he, nanos_since he hd, neg_sub]
    simp only [Calendar.Duration.millis, hnanos, Int.neg_tdiv]
  | months n => simp only [monthsBetween_antisymm d e, Int.neg_tdiv]

theorem dateDifference_self (hd : d.time.isLeap = false) (unit : TimeUnit) :
    dateDifference d d unit = 0 := by
  have hself := dateDifference_antisymm hd hd unit
  omega

theorem dateDifference_mono (hd : d.time.isLeap = false) (he : e.time.isLeap = false)
    (hf : f.time.isLeap = false) (h : (d.compare e).isLE = true) (unit : TimeUnit) :
    dateDifference d f unit ≤ dateDifference e f unit := by
  rw [dateDifference, dateDifference]
  cases hlength : unit.length with
  | millis n =>
    have hn : (0 : ℤ) < n := by cases unit <;> cases hlength <;> decide
    have hposition := DateTime.position_mono hd he h
    have hnanos : (d.since f).nanos ≤ (e.since f).nanos := by
      rw [nanos_since hd hf, nanos_since he hf]
      omega
    exact Int.tdiv_le_tdiv hn (Int.tdiv_le_tdiv (by decide) hnanos)
  | months n =>
    have hn : (0 : ℤ) < n := by cases unit <;> cases hlength <;> decide
    exact Int.tdiv_le_tdiv hn (monthsBetween_mono h f)

/-! ## The function -/

theorem dateDiff_eq (ha : a.toDate = .ok d) (hb : b.toDate = .ok e)
    (hunit : unitOrDays rest = .ok unit) : ∃ r, dateDiff (a :: b :: rest) = .ok (.number r) ∧
      r.toRat = dateDifference d e unit := by
  obtain ⟨r, hr, hvalue⟩ := Value.ofInt_of_natAbs_lt
    ((natAbs_dateDifference d e unit).trans (by decide : 2 ^ 63 < Decimal.capacity))
  refine ⟨r, ?_, hvalue⟩
  rw [dateDiff, ha, hb, hunit, ← hr]
  rfl

/-- Dates that change places have the opposite difference, a date has none from itself, and a later
date has no lesser one, in whatever unit. -/
theorem dateDiff_antisymm_mono (ha : a.toDate = .ok d) (hb : b.toDate = .ok e)
    (hc : c.toDate = .ok f) (hd : d.time.isLeap = false) (he : e.time.isLeap = false)
    (hf : f.time.isLeap = false) (hunit : unitOrDays rest = .ok unit) :
    (∃ r s, dateDiff (a :: b :: rest) = .ok (.number r) ∧
      dateDiff (b :: a :: rest) = .ok (.number s) ∧ r.toRat = -s.toRat) ∧
    (∃ r, dateDiff (a :: a :: rest) = .ok (.number r) ∧ r.toRat = 0) ∧
    ((d.compare e).isLE = true → ∃ r s, dateDiff (a :: c :: rest) = .ok (.number r) ∧
      dateDiff (b :: c :: rest) = .ok (.number s) ∧ r.toRat ≤ s.toRat) := by
  refine ⟨?_, ?_, fun hle => ?_⟩
  · obtain ⟨r, hr, hvalue⟩ := dateDiff_eq ha hb hunit
    obtain ⟨s, hs, hvalue'⟩ := dateDiff_eq hb ha hunit
    refine ⟨r, s, hr, hs, ?_⟩
    rw [hvalue, hvalue', dateDifference_antisymm hd he, Int.cast_neg]
  · obtain ⟨r, hr, hvalue⟩ := dateDiff_eq ha ha hunit
    exact ⟨r, hr, by rw [hvalue, dateDifference_self hd, Int.cast_zero]⟩
  · obtain ⟨r, hr, hvalue⟩ := dateDiff_eq ha hc hunit
    obtain ⟨s, hs, hvalue'⟩ := dateDiff_eq hb hc hunit
    refine ⟨r, s, hr, hs, ?_⟩
    rw [hvalue, hvalue']
    exact_mod_cast dateDifference_mono hd he hf hle unit

/-- A day between the last of a February and the end of the March after it. -/
def lateInMarch : DateTime := .ofDate ((Date.ofParts? 2024 3 30).get rfl)

/-- The ends of January and February, of different length, seen from a day in March. -/
theorem dateDiff_monthEnds : (lastOfJanuary.compare lastOfFebruary).isLE = true ∧
    (∃ r s, dateDiff [.date lastOfJanuary, .date lastOfFebruary, .text "months"] =
        .ok (.number r) ∧
      dateDiff [.date lastOfFebruary, .date lastOfJanuary, .text "months"] = .ok (.number s) ∧
        r.toRat = -s.toRat) ∧
    ∃ r s, dateDiff [.date lastOfJanuary, .text "2024-03-30", .text "months"] =
        .ok (.number r) ∧
      dateDiff [.date lastOfFebruary, .text "2024-03-30", .text "months"] = .ok (.number s) ∧
        r.toRat ≤ s.toRat := by
  have hunit : unitOrDays [.text "months"] = .ok .months := by decide
  have hmarch : Value.toDate (.text "2024-03-30") = .ok lateInMarch := by decide
  have hle : (lastOfJanuary.compare lastOfFebruary).isLE = true := by decide
  obtain ⟨hswap, -, hmono⟩ := dateDiff_antisymm_mono (a := .date lastOfJanuary)
    (b := .date lastOfFebruary) rfl rfl hmarch rfl rfl rfl hunit
  exact ⟨hle, hswap, hmono hle⟩

end Library

end ComputedFields
