import ComputedFields.Proofs.Decimal.Fit
import ComputedFields.Proofs.Decimal.Rational
import ComputedFields.Proofs.Formula.Operands

/-!
# Whole numbers

A value that stands for a whole number counts as that number, as long as 64 bits hold it. The
difference of two such values, neither less than zero, is the exact one.
-/

namespace ComputedFields

namespace Decimal

variable {a b d : Decimal} {z : ℤ}

theorem toInt_eq_tdiv (d : Decimal) : d.toInt = d.signed.tdiv (tenPow d.scale) := by
  rw [toInt, signed]
  split
  · rw [Int.neg_tdiv, Int.ofNat_tdiv]
  · exact Int.ofNat_tdiv ..

/-- A whole number has no digits after the point to leave out. -/
theorem toInt_of_toRat (h : d.toRat = z) : d.toInt = z := by
  have hsigned : d.signed = z * tenPow d.scale := by
    have hvalue := toRat_mul_tenPow_scale d
    rw [h] at hvalue
    exact_mod_cast hvalue.symm
  rw [toInt_eq_tdiv, hsigned, Int.mul_tdiv_cancel]
  exact_mod_cast (tenPow_pos d.scale).ne'

theorem toRat_of_ofInt? (h : ofInt? z = some d) : d.toRat = z := by
  rw [ofInt?] at h
  split at h
  · cases h
    rw [toRat_eq_quotient, quotient_natAbs, tenPow_zero, Nat.cast_one, div_one]
  · cases h

/-! ## Differences -/

/-- The difference is the exact one, rounded. -/
theorem rounded_sub? (h : a.sub? b = some d) : Rounded (a.toRat - b.toRat) d.toRat := by
  rw [sub?] at h
  have hrounded := rounded_add? h
  split at hrounded
  · rename_i hzero
    rw [toRat_eq_zero.mpr hzero, add_zero] at hrounded
    rwa [toRat_eq_zero.mpr hzero, sub_zero]
  · rwa [toRat_neg, ← sub_eq_add_neg] at hrounded

/-- Two numbers that are not less than zero have a difference. -/
theorem exists_sub? (ha : 0 ≤ a.toRat) (hb : 0 ≤ b.toRat) : ∃ d, a.sub? b = some d := by
  rw [sub?]
  cases hzero : a.isZero with
  | true => exact ⟨_, by rw [add?, if_pos hzero]⟩
  | false =>
    cases hzero' : b.isZero with
    | true => exact ⟨a, by rw [add?, hzero, if_neg (by decide), if_pos rfl, if_pos hzero']⟩
    | false =>
      have hsign {d : Decimal} (hd : 0 ≤ d.toRat) (h : d.isZero = false) : d.negative = false :=
        Bool.eq_false_iff.mpr fun hneg => absurd ((toRat_neg_iff h).mpr hneg) (not_lt.mpr hd)
      refine exists_add? ?_
      show a.negative ≠ !b.negative
      rw [hsign ha hzero, hsign hb hzero']
      decide

end Decimal

namespace Value

variable {value a b : Value} {z z' : ℤ} {n : ℕ} {s : String} {depth : Nat}

theorem eq_of_checkInteger (h : checkInteger z = .ok z') : z' = z := by
  rw [checkInteger] at h
  split at h
  · cases h
    rfl
  · cases h

theorem ofInt_of_natAbs_lt (h : z.natAbs < Decimal.capacity) :
    ∃ r, ofInt z = .number r ∧ r.toRat = z := by
  have hfits : ∃ r, Decimal.ofInt? z = some r := ⟨_, dif_pos h⟩
  obtain ⟨r, hr⟩ := hfits
  exact ⟨r, by rw [ofInt, hr], Decimal.toRat_of_ofInt? hr⟩

/-! ## Values that stand for whole numbers -/

/-- The number that the value stands for is this whole number. -/
def StandsFor (value : Value) (z : ℤ) : Prop := ∃ d, value.toNumber = .ok d ∧ d.toRat = z

theorem standsFor_ofInt (h : z.natAbs < Decimal.capacity) : (ofInt z).StandsFor z := by
  obtain ⟨d, hd, hvalue⟩ := ofInt_of_natAbs_lt h
  exact ⟨d, by rw [hd]; rfl, hvalue⟩

theorem not_holdsError_of_toNumber {d : Decimal} (h : value.toNumber = .ok d) :
    ¬ value.HoldsError := fun herror => by
  obtain ⟨kind, hkind⟩ := heeds_toNumber.fails herror
  cases hkind.symm.trans h

theorem StandsFor.not_holdsError (h : value.StandsFor z) : ¬ value.HoldsError := by
  obtain ⟨d, hd, -⟩ := h
  exact not_holdsError_of_toNumber hd

theorem StandsFor.toInteger_eq (h : value.StandsFor z) : value.toInteger = checkInteger z := by
  obtain ⟨d, hd, hvalue⟩ := h
  rw [toInteger, hd]
  exact congrArg checkInteger (Decimal.toInt_of_toRat hvalue)

/-- A whole number that is not negative counts as itself, up to the greatest count. -/
theorem StandsFor.toCount_eq (h : value.StandsFor n) :
    value.toCount = if (n : ℤ) ≤ maxInteger then .ok n else .error .numericOverflow := by
  rw [toCount, h.toInteger_eq, checkInteger]
  have hmin : minInteger ≤ n := le_trans (by decide) (Int.natCast_nonneg n)
  by_cases hle : (n : ℤ) ≤ maxInteger
  · rw [if_pos hle, if_pos ⟨hmin, hle⟩]
    show (if (n : ℤ) < 0 then .error .invalidArgument else .ok (n : ℤ).toNat) = Except.ok n
    rw [if_neg (by omega), Int.toNat_natCast]
  · rw [if_neg hle, if_neg fun h => hle h.2]
    rfl

theorem subtract_of_scalarNumber {x y : Decimal} (ha : scalarNumber a = .ok x)
    (hb : scalarNumber b = .ok y) : subtract a b = (orOverflow (x.sub? y)).map number := by
  have harithmetic : subtract a b = (scalarNumber a).bind fun x => (scalarNumber b).bind fun y =>
      (orOverflow (x.sub? y)).map number := by
    cases a <;> cases b <;> first | rfl | (cases ha; done) | cases hb
  rw [harithmetic, ha, hb]
  rfl

/-- The difference of two whole numbers, neither of them negative. -/
theorem StandsFor.subtract (ha : a.StandsFor z) (hb : b.StandsFor z') (hz : 0 ≤ z) (hz' : 0 ≤ z') :
    (applyBinary .subtract a b).StandsFor (z - z') := by
  have hnot := ha.not_holdsError
  have hnot' := hb.not_holdsError
  obtain ⟨x, hx, hvalue⟩ := ha
  obtain ⟨y, hy, hvalue'⟩ := hb
  obtain ⟨single, hscalar, hnumber⟩ := ok_of_bind hx
  obtain ⟨single', hscalar', hnumber'⟩ := ok_of_bind hy
  obtain ⟨d, hd⟩ := Decimal.exists_sub? (a := x) (b := y) (by rw [hvalue]; exact_mod_cast hz)
    (by rw [hvalue']; exact_mod_cast hz')
  have hresult : applyBinary .subtract a b = .number d := by
    rw [applyBinary_eq (by decide) hnot hnot', hscalar, hscalar']
    show ofResult (Value.subtract single single') = _
    rw [subtract_of_scalarNumber hnumber hnumber', hd]
    rfl
  -- a whole number is not rounded
  have hrounded := Decimal.rounded_sub? hd
  rw [hvalue, hvalue', ← Int.cast_sub] at hrounded
  exact ⟨d, by rw [hresult]; rfl, hrounded.eq_of_int⟩

end Value

end ComputedFields
