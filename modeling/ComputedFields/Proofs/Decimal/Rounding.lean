import ComputedFields.Decimal.Rounding
import ComputedFields.Proofs.Decimal.Normal
import Mathlib

/-!
# Rounding without regard to scale

A quotient is rounded to a number at a scale. At every scale that holds all of its digits, and at
the greatest one, that is the same number.
-/

namespace ComputedFields

variable {tie : Tie} {num den num' den' : Nat}

/-! ## Rounding -/

theorem Tie.roundsUp_mul {quo rem k : Nat} (hk : 0 < k) :
    tie.roundsUp quo (rem * k) (den * k) = tie.roundsUp quo rem den := by
  have hdouble : 2 * (rem * k) = 2 * rem * k := (Nat.mul_assoc 2 rem k).symm
  cases tie <;>
    simp only [roundsUp, hdouble, Nat.mul_lt_mul_right hk, Nat.mul_le_mul_right_iff hk,
      beq_eq_decide, Nat.mul_left_inj hk.ne']

/-- Rounding looks at the quotient only. -/
theorem roundDiv_congr (hden : 0 < den) (hden' : 0 < den') (h : num * den' = num' * den) :
    roundDiv tie num den = roundDiv tie num' den' := by
  have hmul {num den k : Nat} (hk : 0 < k) :
      roundDiv tie (num * k) (den * k) = roundDiv tie num den := by
    rw [roundDiv, roundDiv, Nat.mul_div_mul_right _ _ hk, Nat.mul_mod_mul_right,
      Tie.roundsUp_mul hk]
  rw [← hmul hden', h, Nat.mul_comm den den', hmul hden]

theorem roundDiv_mul_self (hden : 0 < den) (q : Nat) : roundDiv tie (q * den) den = q := by
  have hdown : tie.roundsUp q 0 den = false := by
    cases tie
    · simp [Tie.roundsUp, hden.ne]
    · simp [Tie.roundsUp, hden.ne']
  rw [roundDiv, Nat.mul_div_cancel _ hden, Nat.mul_mod_left, hdown]
  rfl

namespace Decimal

variable {a b a' b' d d' : Decimal} {negative negative' : Bool} {scale scale' : Nat}

/-! ## The same number -/

theorem sameNumber_refl (d : Decimal) : d.sameNumber d = true := sameNumber_iff.mpr rfl

/-- Two results are the same number, or there is none of either. -/
def SameResult : Option Decimal → Option Decimal → Prop :=
  Option.Rel fun a b => a.sameNumber b = true

theorem SameResult.refl (x : Option Decimal) : SameResult x x := by
  cases x with
  | none => exact .none
  | some d => exact .some (sameNumber_refl d)

theorem SameResult.symm {x y : Option Decimal} (h : SameResult x y) : SameResult y x := by
  cases h with
  | none => exact .none
  | some h => exact .some (sameNumber_symm h)

theorem SameResult.trans {x y z : Option Decimal} (hxy : SameResult x y) (hyz : SameResult y z) :
    SameResult x z := by
  cases hxy with
  | none => exact hyz
  | some hab =>
    cases hyz with
    | some hbc => exact .some (sameNumber_trans hab hbc)

/-- Numbers of one magnitude and one sign are the same; the sign of zero does not count. -/
theorem sameNumber_of_mantissa (h : a.mantissa * tenPow b.scale = b.mantissa * tenPow a.scale)
    (hsign : a.mantissa ≠ 0 → a.negative = b.negative) : a.sameNumber b = true := by
  rw [sameNumber_iff]
  have hcast : (a.mantissa * tenPow b.scale : Int) = b.mantissa * tenPow a.scale := by
    exact_mod_cast h
  by_cases hzero : a.mantissa = 0
  · have hb : b.mantissa = 0 := by
      rw [hzero, Nat.zero_mul] at h
      exact (Nat.mul_eq_zero.mp h.symm).resolve_right (tenPow_pos _).ne'
    simp [signed, hzero, hb]
  · rw [signed, signed, hsign hzero]
    cases b.negative
    · exact hcast
    · simpa using hcast

theorem negative_of_sameNumber (h : a.sameNumber b = true) (ha : a.mantissa ≠ 0) :
    a.negative = b.negative := by
  have hsigned := sameNumber_iff.mp h
  have hb : b.mantissa ≠ 0 := fun hb => ha (zero_of_sameNumber (sameNumber_symm h) hb)
  have hpos (m k : Nat) (hm : m ≠ 0) : (0 : Int) < m * tenPow k := by
    have := Nat.mul_pos (Nat.pos_of_ne_zero hm) (tenPow_pos k)
    exact_mod_cast this
  have hleft := hpos a.mantissa b.scale ha
  have hright := hpos b.mantissa a.scale hb
  rw [signed, signed] at hsigned
  cases hna : a.negative <;> cases hnb : b.negative <;>
    simp only [hna, hnb, if_true, Bool.false_eq_true, if_false, Int.neg_mul] at hsigned ⊢ <;> omega

theorem isZero_congr (h : a.sameNumber a' = true) : a.isZero = a'.isZero := by
  rw [isZero, isZero, Bool.eq_iff_iff, beq_iff_eq, beq_iff_eq]
  exact ⟨zero_of_sameNumber h, zero_of_sameNumber (sameNumber_symm h)⟩

theorem mantissa_ne_zero (h : a.isZero = false) : a.mantissa ≠ 0 := by
  intro hzero
  rw [isZero, hzero] at h
  cases h

/-! ## The nearest number -/

theorem nearest?_of_fits
    (h : roundDiv .toEven (num * tenPow scale) den < capacity ∧ scale ≤ maxScale) :
    nearest? negative num den scale =
      some ⟨negative && roundDiv .toEven (num * tenPow scale) den != 0,
        roundDiv .toEven (num * tenPow scale) den, scale, h.1, h.2⟩ := by
  rw [nearest?.eq_def]
  exact dif_pos h

theorem nearest?_succ_of_not_fits
    (h : ¬ (roundDiv .toEven (num * tenPow (scale + 1)) den < capacity ∧ scale + 1 ≤ maxScale)) :
    nearest? negative num den (scale + 1) = nearest? negative num den scale := by
  rw [nearest?.eq_def]
  exact dif_neg h

/-- The nearest number depends on the quotient, on its sign and on the scale. -/
theorem nearest?_congr (hden : 0 < den) (hden' : 0 < den') (h : num * den' = num' * den)
    (hsign : num ≠ 0 → negative = negative') :
    nearest? negative num den scale = nearest? negative' num' den' scale := by
  have hround (scale : Nat) : roundDiv .toEven (num * tenPow scale) den =
      roundDiv .toEven (num' * tenPow scale) den' := by
    refine roundDiv_congr hden hden' ?_
    rw [Nat.mul_right_comm, h, Nat.mul_right_comm]
  have hnegative (scale : Nat) : (negative && roundDiv .toEven (num * tenPow scale) den != 0) =
      (negative' && roundDiv .toEven (num * tenPow scale) den != 0) := by
    by_cases hzero : num = 0
    · have hnone : roundDiv .toEven (0 * den) den = 0 := roundDiv_mul_self hden 0
      rw [Nat.zero_mul] at hnone
      simp [hzero, hnone]
    · rw [hsign hzero]
  induction scale with
  | zero =>
    rw [nearest?.eq_def, nearest?.eq_def]
    simp only [← hround, hnegative]
  | succ scale ih =>
    rw [nearest?.eq_def, nearest?.eq_def]
    simp only [← hround, hnegative, ih]

/-- A scale that holds all digits of a quotient may as well be one greater. -/
theorem nearest?_succ_of_dvd (hden : 0 < den) (h : den ∣ num * tenPow scale) :
    SameResult (nearest? negative num den (scale + 1)) (nearest? negative num den scale) := by
  obtain ⟨q, hq⟩ := h
  rw [Nat.mul_comm den] at hq
  have hround : roundDiv .toEven (num * tenPow scale) den = q := by
    rw [hq, roundDiv_mul_self hden]
  have hround' : roundDiv .toEven (num * tenPow (scale + 1)) den = q * 10 := by
    rw [tenPow_succ, ← Nat.mul_assoc, hq, Nat.mul_right_comm, roundDiv_mul_self hden]
  by_cases hfits : roundDiv .toEven (num * tenPow (scale + 1)) den < capacity ∧ scale + 1 ≤ maxScale
  · have hless : roundDiv .toEven (num * tenPow scale) den < capacity ∧ scale ≤ maxScale := by
      rw [hround'] at hfits
      rw [hround]
      omega
    rw [nearest?_of_fits hfits, nearest?_of_fits hless]
    refine .some (sameNumber_of_mantissa ?_ fun hne => ?_)
    · show roundDiv _ _ _ * tenPow scale = roundDiv _ _ _ * tenPow (scale + 1)
      rw [hround, hround', tenPow_succ, Nat.mul_assoc, Nat.mul_comm 10]
    · have hq : q ≠ 0 := by
        rintro rfl
        exact hne hround'
      show (negative && roundDiv _ _ _ != 0) = (negative && roundDiv _ _ _ != 0)
      rw [hround, hround', bne_iff_ne.mpr hq, bne_iff_ne.mpr (Nat.mul_ne_zero hq (by decide))]
  · rw [nearest?_succ_of_not_fits hfits]
    exact .refl _

/-- The scale holds all digits of a quotient, or is the greatest. -/
def Ample (num den scale : Nat) : Prop :=
  scale = maxScale ∨ scale ≤ maxScale ∧ den ∣ num * tenPow scale

/-- From an ample scale on, a greater scale gives the same number. -/
theorem nearest?_of_le (hden : 0 < den) (h : Ample num den scale) (hle : scale ≤ scale')
    (hmax : scale' ≤ maxScale) :
    SameResult (nearest? negative num den scale') (nearest? negative num den scale) := by
  induction scale', hle using Nat.le_induction with
  | base => exact .refl _
  | succ scale' hle ih =>
    obtain ⟨-, hdvd⟩ := h.resolve_left (by omega)
    have hmore : den ∣ num * tenPow scale' := by
      rw [← Nat.add_sub_of_le hle, tenPow_add, ← Nat.mul_assoc]
      exact Nat.dvd_mul_right_of_dvd hdvd _
    exact (nearest?_succ_of_dvd hden hmore).trans (ih (by omega))

/-- One quotient rounded at two ample scales is the same number. -/
theorem nearest?_same (hden : 0 < den) (hden' : 0 < den') (h : num * den' = num' * den)
    (hsign : num ≠ 0 → negative = negative') (hscale : Ample num den scale)
    (hscale' : Ample num' den' scale') :
    SameResult (nearest? negative num den scale) (nearest? negative' num' den' scale') := by
  have hmax {num den scale : Nat} (h : Ample num den scale) : scale ≤ maxScale :=
    h.elim Nat.le_of_eq And.left
  rcases Nat.le_total scale scale' with hle | hle
  · refine (nearest?_of_le hden hscale hle (hmax hscale')).symm.trans ?_
    rw [nearest?_congr hden hden' h hsign]
    exact .refl _
  · rw [nearest?_congr hden hden' h hsign]
    exact nearest?_of_le hden' hscale' hle (hmax hscale)

end Decimal

end ComputedFields
