import ComputedFields.Decimal.Arithmetic
import ComputedFields.Proofs.Decimal.Rounding

/-!
# Results that fit

An operation has a result when a mantissa holds the whole number nearest to the exact one. So it is
for a quotient by a whole number, and for a sum of two numbers of different signs.
-/

namespace ComputedFields

variable {num den bound : Nat}

theorem roundDiv_le_of_le_mul (tie : Tie) (hden : 0 < den) (h : num ≤ bound * den) :
    roundDiv tie num den ≤ bound := by
  rcases Nat.lt_or_eq_of_le h with hlt | rfl
  · have hdiv : num / den < bound := (Nat.div_lt_iff_lt_mul hden).mpr hlt
    have hround := roundDiv_le tie num den
    omega
  · rw [roundDiv_mul_self hden]

namespace Decimal

variable {a b : Decimal}

/-- There is a nearest number when the quotient is at most a mantissa. -/
theorem exists_nearest? (negative : Bool) (scale : Nat) (hbound : bound < capacity)
    (hden : 0 < den) (h : num ≤ bound * den) : ∃ d, nearest? negative num den scale = some d := by
  induction scale with
  | zero =>
    have hwhole := roundDiv_le_of_le_mul .toEven hden h
    refine ⟨_, nearest?_of_fits ⟨?_, Nat.zero_le _⟩⟩
    rw [tenPow_zero, Nat.mul_one]
    omega
  | succ scale ih =>
    by_cases hfits : roundDiv .toEven (num * tenPow (scale + 1)) den < capacity ∧
        scale + 1 ≤ maxScale
    · exact ⟨_, nearest?_of_fits hfits⟩
    · rwa [nearest?_succ_of_not_fits hfits]

/-- A product of two whole numbers is exact, so it is whole and not zero when they are. -/
theorem whole_of_mul? {d : Decimal} (hscale : a.scale = 0) (hscale' : b.scale = 0)
    (ha : a.isZero = false) (hb : b.isZero = false) (h : a.mul? b = some d) :
    d.scale = 0 ∧ d.isZero = false := by
  have hproduct : a.mantissa * b.mantissa ≠ 0 :=
    Nat.mul_ne_zero (mantissa_ne_zero ha) (mantissa_ne_zero hb)
  have hround : roundDiv .toEven (a.mantissa * b.mantissa * tenPow 0) (tenPow (0 + 0)) =
      a.mantissa * b.mantissa :=
    roundDiv_mul_self (by decide) _
  have hvanish : a.vanish b = false := by
    rw [vanish, hscale, hscale', Bool.and_eq_false_iff]
    exact .inr rfl
  rw [mul?, ha, hb, hvanish, hscale, hscale', nearest?.eq_def] at h
  simp only [Bool.or_self, Bool.false_eq_true, if_false, Nat.add_zero, Nat.zero_min] at h
  split at h
  · cases h
    exact ⟨rfl, beq_false_of_ne (hround.trans_ne hproduct)⟩
  · cases h

/-- A quotient by a whole number is no greater than the dividend. -/
theorem exists_div? (a : Decimal) (hscale : b.scale = 0) (hb : b.isZero = false) :
    ∃ d, a.div? b = some d := by
  have hden : 0 < b.mantissa * tenPow a.scale :=
    Nat.mul_pos (Nat.pos_of_ne_zero (mantissa_ne_zero hb)) (tenPow_pos _)
  have hle : a.mantissa * tenPow b.scale ≤ a.mantissa * (b.mantissa * tenPow a.scale) := by
    rw [hscale, tenPow_zero]
    exact Nat.mul_le_mul_left _ hden
  obtain ⟨q, hq⟩ := exists_nearest? (a.negative != b.negative)
    (evenScale a.mantissa b.mantissa ((a.scale : Int) - b.scale)).toNat a.mantissa_lt hden hle
  simp only [div?, hb, Bool.false_eq_true, if_false, hq]
  split
  · exact ⟨_, rfl⟩
  · split <;> exact ⟨_, rfl⟩

theorem natAbs_alignedMantissa_le (d : Decimal) (scale : Nat) :
    (d.alignedMantissa scale).natAbs ≤ d.mantissa * tenPow scale := by
  have hsigned : d.signed.natAbs = d.mantissa := by
    rw [signed]
    split <;> omega
  rw [alignedMantissa, Int.natAbs_mul, hsigned, Int.natAbs_natCast]
  exact Nat.mul_le_mul_left _ (Nat.pow_le_pow_right (by decide) (Nat.sub_le _ _))

theorem alignedMantissa_nonpos (h : a.negative = true) (scale : Nat) :
    a.alignedMantissa scale ≤ 0 := by
  rw [alignedMantissa, signed, if_pos h]
  exact Int.mul_nonpos_of_nonpos_of_nonneg (by omega) (Int.natCast_nonneg _)

theorem alignedMantissa_nonneg (h : a.negative = false) (scale : Nat) :
    0 ≤ a.alignedMantissa scale := by
  rw [alignedMantissa, signed, h]
  exact Int.mul_nonneg (Int.natCast_nonneg _) (Int.natCast_nonneg _)

/-- A sum of two numbers of different signs lies between them. -/
theorem exists_add? (h : a.negative ≠ b.negative) : ∃ d, a.add? b = some d := by
  have hsum (scale : Nat) : (a.alignedMantissa scale + b.alignedMantissa scale).natAbs ≤
      max a.mantissa b.mantissa * tenPow scale := by
    have ha := natAbs_alignedMantissa_le a scale
    have hb := natAbs_alignedMantissa_le b scale
    rw [← Nat.mul_max_mul_right]
    cases hna : a.negative <;> cases hnb : b.negative
    · exact absurd (hna.trans hnb.symm) h
    · have := alignedMantissa_nonneg hna scale
      have := alignedMantissa_nonpos hnb scale
      omega
    · have := alignedMantissa_nonpos hna scale
      have := alignedMantissa_nonneg hnb scale
      omega
    · exact absurd (hna.trans hnb.symm) h
  rw [add?]
  split
  · exact ⟨b, rfl⟩
  · split
    · exact ⟨a, rfl⟩
    · exact exists_nearest? _ _ (Nat.max_lt.mpr ⟨a.mantissa_lt, b.mantissa_lt⟩) (tenPow_pos _)
        (hsum _)

end Decimal

end ComputedFields
