import ComputedFields.Proofs.Calendar.Months
import ComputedFields.Proofs.Guarded.Dates
import ComputedFields.Proofs.Library.Rounding
import ComputedFields.Proofs.Value.Whole

/-!
# Steps and differences of dates

The difference in a unit between a date and the date some units later is the number of units. There
is one exception: a step forward by months or years that ends in a month without the day that it
starts from falls one short.
-/

namespace ComputedFields

namespace Library

open Calendar (DateTime Date Duration monthLength)
open Value (eq_of_checkInteger eq_some_of_orOverflow)

variable {d e later earlier : DateTime} {n steps : ℤ} {count : Decimal} {unit : TimeUnit}
  {a b : Value} {rest : List Value}

/-! ## Whole months -/

/-- Within one time of day only the day of the month counts. -/
theorem earlierInMonth_of_time_eq (h : later.time = earlier.time) :
    earlierInMonth later earlier = true ↔ later.date.day < earlier.date.day := by
  have htime : earlier.time.compare earlier.time = .eq := by simp [Calendar.TimeOfDay.compare]
  rw [earlierInMonth, h, htime, Ordering.then_eq, Ordering.isLT_iff_eq_lt, Nat.compare_eq_lt]

theorem monthsSince_eq (later earlier : DateTime) :
    monthsSince later earlier = later.date.monthIndex - earlier.date.monthIndex -
      if earlierInMonth later earlier then 1 else 0 := by
  rw [monthsSince, Date.monthIndex, Date.monthIndex]
  split <;> omega

/-- The months from a date to the one that is some months later are that many, or one less after a
step forward into a month that is too short. -/
theorem monthsBetween_of_addMonths? (h : d.addMonths? steps = some e) :
    monthsBetween e d =
      if 0 < steps ∧ monthLength (d.date.monthIndex + steps) < d.date.day then steps - 1
      else steps := by
  obtain ⟨hdate, htime⟩ := DateTime.addMonths?_eq_some h
  have hindex := Date.monthIndex_of_addMonths? hdate
  have hday := Date.day_of_addMonths? hdate
  have hlength := d.date.day_le_monthLength
  rw [monthsBetween]
  split
  · rename_i hback
    -- the day is not a later one, so a step back leads a whole number of months away
    have hsteps : steps ≤ 0 := by
      by_contra hforth
      have hless : d.compare e = .lt := DateTime.compare_of_monthIndex_lt (by omega)
      have hgreater : e.compare d = .gt := Std.OrientedCmp.gt_of_lt hless
      rw [hgreater] at hback
      cases hback
    have hreached : ¬ earlierInMonth d e = true := by
      rw [earlierInMonth_of_time_eq htime.symm]
      omega
    rw [monthsSince_eq, if_neg hreached, if_neg (by omega)]
    omega
  · rename_i hforth
    have hsteps : 0 ≤ steps := by
      by_contra hback
      have hless : e.compare d = .lt := DateTime.compare_of_monthIndex_lt (by omega)
      exact hforth (by rw [hless]; rfl)
    have hearlier : earlierInMonth e d = true ↔
        0 < steps ∧ monthLength (d.date.monthIndex + steps) < d.date.day := by
      rw [earlierInMonth_of_time_eq htime, hday]
      rcases hsteps.eq_or_lt with rfl | hpos
      · rw [Int.add_zero]
        omega
      · omega
    rw [monthsSince_eq]
    split_ifs <;> first | omega | tauto

/-! ## Steps -/

/-- Whether a step goes forward into a month without the day that it starts from. -/
def shortened (d : DateTime) (n : ℤ) (unit : TimeUnit) : Bool :=
  match unit.length with
  | .millis _ => false
  | .months k => decide (0 < n ∧ monthLength (d.date.monthIndex + n * k) < d.date.day)

theorem pred_tdiv {k : ℕ} (hk : 0 < k) (hn : 0 < n) : (n * k - 1).tdiv k = n - 1 := by
  have hpos : 1 * 1 ≤ n * (k : ℤ) := by
    refine Int.mul_le_mul ?_ ?_ ?_ ?_ <;> omega
  have hsplit : n * (k : ℤ) - 1 = (k - 1 : ℤ) + (n - 1) * k := by ring
  rw [Int.tdiv_eq_ediv_of_nonneg (by omega), hsplit, Int.add_mul_ediv_right _ _ (by omega),
    Int.ediv_eq_zero_of_lt (by omega) (by omega), Int.zero_add]

/-- A step of so many units leads that many units away. -/
theorem dateDifference_of_dateStep (hd : d.time.isLeap = false) (hn : count.toRat = n)
    (h : dateStep d count unit = .ok e) :
    dateDifference e d unit = if shortened d n unit then n - 1 else n := by
  rw [dateStep] at h
  rw [dateDifference, shortened]
  cases hlength : unit.length with
  | millis k =>
    have hk : (k : ℤ) ≠ 0 := by cases unit <;> cases hlength <;> decide
    simp only [hlength] at h ⊢
    obtain ⟨factor, hfactor, h⟩ := ok_of_bind h
    obtain ⟨product, hproduct, h⟩ := ok_of_bind h
    obtain ⟨millis, hmillis, h⟩ := ok_of_bind h
    obtain ⟨span, hspan, h⟩ := ok_of_bind h
    have hexact : product.toRat = (n * k : ℤ) := by
      have hrounded := Decimal.rounded_mul? (eq_some_of_orOverflow hproduct)
      rw [hn, Decimal.toRat_of_ofInt? (eq_some_of_orOverflow hfactor), ← Int.cast_mul] at hrounded
      exact hrounded.eq_of_int
    have hnanos : (e.since d).nanos = n * k * 1000000 := by
      rw [← Decimal.toInt_of_toRat hexact, ← eq_of_checkInteger hmillis,
        ← Duration.nanos_of_ofMillis? (eq_some_of_orOverflow hspan)]
      exact DateTime.nanosSince_of_add? hd (eq_some_of_orOverflow h)
    rw [Duration.millis, hnanos, Int.mul_tdiv_cancel _ (by decide), Int.mul_tdiv_cancel _ hk]
    rfl
  | months k =>
    have hk : 0 < k := by cases unit <;> cases hlength <;> decide
    simp only [hlength] at h ⊢
    obtain ⟨months, hmonths, h⟩ := ok_of_bind h
    rw [eq_of_checkInteger hmonths, Decimal.toInt_of_toRat hn] at h
    rw [monthsBetween_of_addMonths? (eq_some_of_orOverflow h)]
    have hforth : 0 < n * (k : ℤ) ↔ 0 < n := mul_pos_iff_of_pos_right (by exact_mod_cast hk)
    simp only [hforth, decide_eq_true_eq]
    split
    · rename_i hshort
      exact pred_tdiv hk hshort.1
    · exact Int.mul_tdiv_cancel _ (by omega)

theorem natAbs_dateDifference (a b : DateTime) (unit : TimeUnit) :
    (dateDifference a b unit).natAbs < 2 ^ 63 := by
  rw [dateDifference]
  split
  · rw [Int.natAbs_tdiv]
    exact (Nat.div_le_self _ _).trans_lt (Duration.natAbs_millis _)
  · rw [Int.natAbs_tdiv]
    exact (Nat.div_le_self _ _).trans_lt
      ((Guarded.natAbs_monthsBetween a b).trans (by decide))

/-! ## The functions -/

/-- Only a span of time is no count of units. -/
theorem dateStep_of_dateAdd (ha : a.toDate = .ok d) (hb : b.toNumber = .ok count)
    (hunit : unitOrDays rest = .ok unit) (h : dateAdd (a :: b :: rest) = .ok (.date e)) :
    dateStep d count unit = .ok e := by
  have hsteps : dateAdd (a :: b :: rest) = (dateStep d count unit).map .date := by
    have hunits : (do
        let d ← a.toDate
        let count ← b.toNumber
        let unit ← unitOrDays rest
        let result ← dateStep d count unit
        return Value.date result) = (dateStep d count unit).map .date := by
      rw [ha, hb, hunit]
      rfl
    cases b with
    | duration span => cases hb
    | _ => cases rest <;> exact hunits
  obtain ⟨e', he', hdate⟩ := ok_of_map (hsteps ▸ h)
  cases hdate
  exact he'

/-- The difference between a date and the date so many units later, where there is one, is that many
units, or one less where the step is shortened. -/
theorem dateDiff_dateAdd (ha : a.toDate = .ok d) (hleap : d.time.isLeap = false)
    (hb : b.toNumber = .ok count) (hn : count.toRat = n) (hunit : unitOrDays rest = .ok unit)
    (h : dateAdd (a :: b :: rest) = .ok (.date e)) :
    ∃ r, dateDiff (.date e :: a :: rest) = .ok (.number r) ∧
      r.toRat = (if shortened d n unit then n - 1 else n : ℤ) := by
  have hdifference := dateDifference_of_dateStep hleap hn (dateStep_of_dateAdd ha hb hunit h)
  obtain ⟨r, hr, hvalue⟩ := Value.ofInt_of_natAbs_lt
    ((natAbs_dateDifference e d unit).trans (by decide : 2 ^ 63 < Decimal.capacity))
  refine ⟨r, ?_, hdifference ▸ hvalue⟩
  rw [dateDiff, ha, hunit, ← hr]
  rfl

/-- The last day of a January. -/
def lastOfJanuary : DateTime := .ofDate ((Date.ofParts? 2024 1 31).get rfl)

/-- The last day of the February after it. -/
def lastOfFebruary : DateTime := .ofDate ((Date.ofParts? 2024 2 29).get rfl)

/-- A month later there is no 31st, and the last day of that month is less than a month away. -/
theorem dateDiff_lastOfFebruary :
    dateAdd [.date lastOfJanuary, .number .one, .text "months"] = .ok (.date lastOfFebruary) ∧
      ∃ r, dateDiff [.date lastOfFebruary, .date lastOfJanuary, .text "months"] =
        .ok (.number r) ∧ r.toRat = 0 := by
  have hunit : unitOrDays [.text "months"] = .ok .months := by decide
  have hlater : dateAdd [.date lastOfJanuary, .number .one, .text "months"] =
      .ok (.date lastOfFebruary) := by decide
  have hone : Decimal.one.toRat = (1 : ℤ) := Decimal.toRat_one.trans Int.cast_one.symm
  obtain ⟨r, hr, hvalue⟩ := dateDiff_dateAdd rfl rfl rfl hone hunit hlater
  refine ⟨hlater, r, hr, ?_⟩
  have hshort : shortened lastOfJanuary 1 .months = true := by decide
  rw [hvalue, hshort]
  rfl

end Library

end ComputedFields
