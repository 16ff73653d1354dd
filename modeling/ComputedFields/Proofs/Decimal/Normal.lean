import ComputedFields.Decimal.Basic
import Mathlib.Tactic.Ring

/-!
# The shortest form of a number

Two data have the same shortest form just if they denote the same number, and the shortest form is
its own.
-/

namespace ComputedFields.Decimal

variable {a b c d : Decimal}

/-! ## Zeros at the end -/

theorem stripZeros_value (m k : Nat) :
    (stripZeros m k).1 * tenPow (k - (stripZeros m k).2) = m := by
  induction k generalizing m with
  | zero => exact Nat.mul_one m
  | succ k ih =>
    rw [stripZeros]
    split
    · rename_i hzero
      have hle := stripZeros_snd_le (m / 10) k
      rw [Nat.succ_sub hle, tenPow_succ, ← Nat.mul_assoc, ih, Nat.div_mul_cancel]
      exact Nat.dvd_of_mod_eq_zero hzero
    · rw [Nat.sub_self, tenPow_zero, Nat.mul_one]

/-- No digit zero is left at the end, unless there is no digit after the point. -/
theorem stripZeros_last (m k : Nat) :
    (stripZeros m k).2 = 0 ∨ (stripZeros m k).1 % 10 ≠ 0 := by
  induction k generalizing m with
  | zero => exact .inl rfl
  | succ k ih =>
    rw [stripZeros]
    split
    · exact ih _
    · rename_i hlast
      exact .inr hlast

theorem stripZeros_eq_self {m k : Nat} (h : k = 0 ∨ m % 10 ≠ 0) : stripZeros m k = (m, k) := by
  cases k with
  | zero => rfl
  | succ k =>
    rw [stripZeros, if_neg]
    exact h.resolve_left (Nat.succ_ne_zero k)

/-- A number whose digits after the point do not end with zero. -/
def Short (d : Decimal) : Prop := d.mantissa ≠ 0 ∧ (d.scale = 0 ∨ d.mantissa % 10 ≠ 0)

theorem short_shorten (h : d.mantissa ≠ 0) : d.shorten.Short := by
  refine ⟨?_, stripZeros_last _ _⟩
  intro hzero
  have hvalue := stripZeros_value d.mantissa d.scale
  rw [show (stripZeros d.mantissa d.scale).1 = 0 from hzero, Nat.zero_mul] at hvalue
  exact h hvalue.symm

theorem Short.shorten_eq (h : d.Short) : d.shorten = d := by
  have hstrip := stripZeros_eq_self h.2
  simp [shorten, hstrip]

theorem normalize_of_zero (h : d.mantissa = 0) : d.normalize = zero := if_pos h

theorem normalize_of_ne_zero (h : d.mantissa ≠ 0) : d.normalize = d.shorten := if_neg h

theorem normalize_normalize (d : Decimal) : d.normalize.normalize = d.normalize := by
  by_cases hzero : d.mantissa = 0
  · rw [normalize_of_zero hzero]
    rfl
  · have hshort := short_shorten hzero
    rw [normalize_of_ne_zero hzero, normalize_of_ne_zero hshort.1, hshort.shorten_eq]

/-- A zero in its shortest form has no sign. -/
theorem mantissa_normalize_ne_zero (h : d.normalize.negative = true) :
    d.normalize.mantissa ≠ 0 := by
  by_cases hzero : d.mantissa = 0
  · rw [normalize_of_zero hzero] at h
    cases h
  · rw [normalize_of_ne_zero hzero]
    exact (short_shorten hzero).1

/-! ## The number that is denoted -/

theorem sameNumber_iff : a.sameNumber b = true ↔
    a.signed * tenPow b.scale = b.signed * tenPow a.scale := by
  rw [sameNumber, beq_iff_eq]

theorem sameNumber_symm (h : a.sameNumber b = true) : b.sameNumber a = true :=
  sameNumber_iff.mpr (sameNumber_iff.mp h).symm

theorem sameNumber_trans (hab : a.sameNumber b = true) (hbc : b.sameNumber c = true) :
    a.sameNumber c = true := by
  rw [sameNumber_iff] at *
  have hpos : (tenPow b.scale : Int) ≠ 0 := by
    exact_mod_cast (tenPow_pos b.scale).ne'
  refine mul_right_cancel₀ hpos ?_
  calc a.signed * tenPow c.scale * tenPow b.scale
      = b.signed * tenPow a.scale * tenPow c.scale := by rw [mul_right_comm, hab]
    _ = c.signed * tenPow b.scale * tenPow a.scale := by rw [mul_right_comm, hbc]
    _ = c.signed * tenPow a.scale * tenPow b.scale := mul_right_comm _ _ _

theorem natAbs_signed (d : Decimal) : d.signed.natAbs = d.mantissa := by
  rw [signed]
  split
  · rw [Int.natAbs_neg, Int.natAbs_natCast]
  · rw [Int.natAbs_natCast]

theorem mantissa_of_sameNumber (h : a.sameNumber b = true) :
    a.mantissa * tenPow b.scale = b.mantissa * tenPow a.scale := by
  have habs := congrArg Int.natAbs (sameNumber_iff.mp h)
  rwa [Int.natAbs_mul, Int.natAbs_mul, natAbs_signed, natAbs_signed, Int.natAbs_natCast,
    Int.natAbs_natCast] at habs

theorem zero_of_sameNumber (h : a.sameNumber b = true) (ha : a.mantissa = 0) :
    b.mantissa = 0 := by
  have hvalue := mantissa_of_sameNumber h
  rw [ha, Nat.zero_mul] at hvalue
  exact (Nat.mul_eq_zero.mp hvalue.symm).resolve_right (tenPow_pos _).ne'

/-- The shortest form denotes the same number. -/
theorem sameNumber_normalize (d : Decimal) : d.sameNumber d.normalize = true := by
  rw [sameNumber_iff]
  by_cases hzero : d.mantissa = 0
  · rw [normalize_of_zero hzero]
    simp [signed, hzero, zero]
  · rw [normalize_of_ne_zero hzero]
    have hpow : tenPow d.scale = tenPow (d.scale - d.shorten.scale) * tenPow d.shorten.scale := by
      have hle : d.shorten.scale ≤ d.scale := stripZeros_snd_le _ _
      rw [← tenPow_add, Nat.sub_add_cancel hle]
    have hvalue : d.shorten.mantissa * tenPow (d.scale - d.shorten.scale) = d.mantissa :=
      stripZeros_value _ _
    have hsigned : d.shorten.signed * tenPow (d.scale - d.shorten.scale) = d.signed := by
      rw [signed, signed, ← hvalue]
      have hnegative : d.shorten.negative = d.negative := rfl
      rw [hnegative]
      split <;> push_cast <;> ring
    rw [hpow, ← hsigned]
    push_cast
    ring

theorem Short.scale_le (hb : b.Short)
    (h : a.mantissa * tenPow b.scale = b.mantissa * tenPow a.scale) : b.scale ≤ a.scale := by
  by_contra hlt
  -- one more digit after the point would be a zero
  obtain ⟨k, hk⟩ : ∃ k, b.scale = a.scale + (k + 1) := ⟨b.scale - a.scale - 1, by omega⟩
  rw [hk, tenPow_add, Nat.mul_left_comm, Nat.mul_comm, tenPow_succ] at h
  have hvalue := Nat.eq_of_mul_eq_mul_right (tenPow_pos a.scale) h
  rw [← Nat.mul_assoc] at hvalue
  rcases hb.2 with hzero | hlast
  · omega
  · rw [← hvalue, Nat.mul_mod_left] at hlast
    exact hlast rfl

/-- Short numbers that denote the same number are the same datum. -/
theorem Short.eq_of_sameNumber (ha : a.Short) (hb : b.Short) (h : a.sameNumber b = true) :
    a = b := by
  have hsigned := sameNumber_iff.mp h
  have hvalue := mantissa_of_sameNumber h
  have hscale : a.scale = b.scale := Nat.le_antisymm (ha.scale_le hvalue.symm) (hb.scale_le hvalue)
  rw [hscale] at hvalue hsigned
  have hmantissa := Nat.eq_of_mul_eq_mul_right (tenPow_pos b.scale) hvalue
  have hnegative : a.negative = b.negative := by
    have hpos : (tenPow b.scale : Int) ≠ 0 := by exact_mod_cast (tenPow_pos b.scale).ne'
    have heq := mul_right_cancel₀ hpos hsigned
    have hne := ha.1
    rw [signed, signed, hmantissa] at heq
    cases hna : a.negative <;> cases hnb : b.negative <;> simp [hna, hnb] at heq ⊢ <;> omega
  obtain ⟨na, ma, ka, hma, hka⟩ := a
  obtain ⟨nb, mb, kb, hmb, hkb⟩ := b
  simp_all

theorem normalize_eq_normalize : a.normalize = b.normalize ↔ a.sameNumber b = true := by
  constructor
  · intro h
    have ha := sameNumber_normalize a
    rw [h] at ha
    exact sameNumber_trans ha (sameNumber_symm (sameNumber_normalize b))
  · intro h
    by_cases ha : a.mantissa = 0
    · rw [normalize_of_zero ha, normalize_of_zero (zero_of_sameNumber h ha)]
    · have hb : b.mantissa ≠ 0 := fun hb => ha (zero_of_sameNumber (sameNumber_symm h) hb)
      have hsame := sameNumber_trans (sameNumber_trans (sameNumber_symm (sameNumber_normalize a)) h)
        (sameNumber_normalize b)
      rw [normalize_of_ne_zero ha, normalize_of_ne_zero hb] at hsame ⊢
      exact (short_shorten ha).eq_of_sameNumber (short_shorten hb) hsame

end ComputedFields.Decimal
