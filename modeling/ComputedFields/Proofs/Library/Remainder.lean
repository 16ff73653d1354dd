import ComputedFields.Library.Numbers
import ComputedFields.Proofs.Decimal.Rational

/-!
# The remainder with the sign of the divisor

Division with the quotient rounded down leaves a remainder between zero and the divisor. The
remainder of a division with whole quotient is exact, and the divisor is added to it where the signs
differ; the sum may have more digits than a mantissa holds, and is rounded then. So a remainder just
short of the divisor can come out as the divisor.
-/

namespace ComputedFields

/-! ## The exact remainder -/

/-- What a division leaves with its quotient rounded down. -/
def flooredRemainder (x y : ℚ) : ℚ := x - y * ⌊x / y⌋

section

variable {x y r : ℚ} {k : ℤ}

/-- It is the number between zero and the divisor that is whole multiples of the divisor away from
the dividend. -/
theorem flooredRemainder_eq (hx : x - r = k * y) (hr : |r| < |y|) (hsign : 0 ≤ r * y) :
    flooredRemainder x y = r := by
  have hy : y ≠ 0 := abs_pos.mp ((abs_nonneg r).trans_lt hr)
  have hnonneg : 0 ≤ r / y := by
    rw [← mul_div_mul_right r y hy]
    exact div_nonneg hsign (mul_self_nonneg y)
  have hless : r / y < 1 := by
    calc r / y ≤ |r / y| := le_abs_self _
      _ = |r| / |y| := abs_div r y
      _ < 1 := (div_lt_one (abs_pos.mpr hy)).mpr hr
  have hquotient : x / y = r / y + k := by
    rw [← sub_add_cancel x r, hx, add_div, mul_div_cancel_right₀ _ hy, add_comm]
  have hfloor : ⌊x / y⌋ = k := by
    rw [hquotient, Int.floor_add_intCast, Int.floor_eq_zero_iff.mpr ⟨hnonneg, hless⟩, zero_add]
  rw [flooredRemainder, hfloor, mul_comm, ← hx, sub_sub_cancel]

/-- A remainder on the wrong side of zero is the divisor short. -/
theorem flooredRemainder_eq_add (hx : x - r = k * y) (hr : |r| < |y|) (hsign : r * y < 0) :
    flooredRemainder x y = r + y := by
  have hmultiple : x - (r + y) = (k - 1 : ℤ) * y := by
    rw [← sub_sub, hx, Int.cast_sub, Int.cast_one, sub_one_mul]
  rcases mul_neg_iff.mp hsign with ⟨hr', hy⟩ | ⟨hr', hy⟩
  · rw [abs_of_pos hr', abs_of_neg hy] at hr
    refine flooredRemainder_eq hmultiple ?_ (mul_nonneg_of_nonpos_of_nonpos ?_ hy.le)
    · rw [abs_of_neg hy, abs_of_neg] <;> linarith
    · linarith
  · rw [abs_of_neg hr', abs_of_pos hy] at hr
    refine flooredRemainder_eq hmultiple ?_ (mul_nonneg ?_ hy.le)
    · rw [abs_of_pos hy, abs_of_pos] <;> linarith
    · linarith

/-- A whole multiple of the divisor is left. -/
theorem sub_flooredRemainder (x y : ℚ) : x - flooredRemainder x y = ⌊x / y⌋ * y := by
  rw [flooredRemainder, sub_sub_cancel, mul_comm]

/-- It lies between zero and the divisor. -/
theorem flooredRemainder_between (hy : y ≠ 0) :
    |flooredRemainder x y| < |y| ∧ 0 ≤ flooredRemainder x y * y := by
  have hfract : flooredRemainder x y = Int.fract (x / y) * y := by
    rw [flooredRemainder, ← Int.self_sub_floor, sub_mul, div_mul_cancel₀ _ hy, mul_comm]
  have hnonneg := Int.fract_nonneg (x / y)
  rw [hfract, abs_mul, abs_of_nonneg hnonneg, mul_assoc]
  exact ⟨mul_lt_of_lt_one_left (abs_pos.mpr hy) (Int.fract_lt_one _),
    mul_nonneg hnonneg (mul_self_nonneg y)⟩

end

/-! ## The remainder that is computed -/

namespace Library

open Decimal
open Value (orOverflow)

variable {n d r : Decimal} {a b : Value}

/-- The exact remainder, rounded. -/
theorem rounded_modulo (hd : d.isZero = false) : ∃ r, modulo n d = .ok r ∧
    Rounded (flooredRemainder n.toRat d.toRat) r.toRat := by
  obtain ⟨r, hrem, ⟨k, hk⟩, hless⟩ := rem?_spec (a := n) hd
  have hmodulo : modulo n d =
      if !r.isZero && r.negative != d.negative then orOverflow (r.add? d) else .ok r := by
    rw [modulo, hd, hrem]
    rfl
  rw [hmodulo]
  cases hr : r.isZero with
  | true =>
    have hsign : 0 ≤ r.toRat * d.toRat := by rw [toRat_eq_zero.mpr hr, zero_mul]
    refine ⟨r, rfl, ?_⟩
    rw [flooredRemainder_eq hk hless hsign]
    exact rounded_toRat r
  | false =>
    have hsign := toRat_mul_toRat_neg_iff hr hd
    by_cases hdiffer : r.negative = d.negative
    · have hsign : 0 ≤ r.toRat * d.toRat := not_lt.mp fun h => hsign.mp h hdiffer
      refine ⟨r, if_neg (by simp [hdiffer]), ?_⟩
      rw [flooredRemainder_eq hk hless hsign]
      exact rounded_toRat r
    · obtain ⟨sum, hsum⟩ := exists_add? hdiffer
      refine ⟨sum, ?_, ?_⟩
      · rw [if_pos (by simpa using hdiffer), hsum]
        rfl
      · rw [flooredRemainder_eq_add hk hless (hsign.mpr hdiffer)]
        exact rounded_add? hsum

/-- The remainder is rounded to the digits that a mantissa holds. It does not leave the range from
zero to the divisor, and it is short of the divisor, and whole multiples of it away from the
dividend, just where no digits are lost. -/
theorem mod_rounds (hn : a.toNumber = .ok n) (hd : b.toNumber = .ok d) (hzero : d.isZero = false) :
    ∃ r, mod [a, b] = .ok (.number r) ∧
      Rounded (flooredRemainder n.toRat d.toRat) r.toRat ∧
      |r.toRat| ≤ |d.toRat| ∧ (r.toRat = 0 ∨ 0 < r.toRat * d.toRat) ∧
      ((∃ k : ℤ, n.toRat - r.toRat = k * d.toRat) ∧ |r.toRat| < |d.toRat| ↔
        ∃ e : Decimal, e.toRat = flooredRemainder n.toRat d.toRat) := by
  obtain ⟨r, hr, hrounded⟩ := rounded_modulo (n := n) hzero
  have hd' := toRat_ne_zero hzero
  obtain ⟨hless, hsign⟩ := flooredRemainder_between (x := n.toRat) hd'
  have hsign := hrounded.mul_nonneg hsign
  refine ⟨r, ?_, hrounded, hrounded.abs_le hless.le, ?_, ?_⟩
  · rw [mod, hn, hd]
    simp only [bind, Except.bind, hr]
    rfl
  · rcases hsign.eq_or_lt with h | h
    · exact .inl ((mul_eq_zero.mp h.symm).resolve_right hd')
    · exact .inr h
  · constructor
    · rintro ⟨⟨k, hk⟩, hshort⟩
      exact ⟨r, (flooredRemainder_eq hk hshort hsign).symm⟩
    · rintro ⟨e, he⟩
      rw [← he] at hrounded
      rw [hrounded.eq_toRat, he]
      exact ⟨⟨_, sub_flooredRemainder _ _⟩, hless⟩

/-- The greatest of the numbers less than zero. -/
def justBelowZero : Decimal := ⟨true, 1, 28, one_lt_capacity, digits_le_maxScale⟩

/-- Ten, at the scale to which a remainder just short of it is rounded. -/
def longTen : Decimal := ⟨false, 10 ^ 28, 27, by decide, by decide⟩

theorem mod_justBelowZero : mod [.number justBelowZero, .number ten] = .ok (.number longTen) := by
  decide +kernel

theorem mod_rounds_to_divisor :
    ¬ ∀ n d r : Decimal, d.isZero = false → mod [.number n, .number d] = .ok (.number r) →
      (∃ k : ℤ, n.toRat - r.toRat = k * d.toRat) ∧ |r.toRat| < |d.toRat| ∧
        (r.toRat = 0 ∨ 0 < r.toRat * d.toRat) := by
  intro h
  obtain ⟨-, hless, -⟩ := h justBelowZero ten longTen rfl mod_justBelowZero
  have hsame : longTen.toRat = ten.toRat := toRat_eq_iff.mpr (by decide)
  rw [hsame] at hless
  exact lt_irrefl _ hless

theorem mod_rounds_justBelowZero :
    Value.toNumber (.number justBelowZero) = .ok justBelowZero ∧
      Value.toNumber (.number ten) = .ok ten ∧ ten.isZero = false ∧
      ∃ r, mod [.number justBelowZero, .number ten] = .ok (.number r) ∧
        Rounded (flooredRemainder justBelowZero.toRat ten.toRat) r.toRat ∧
        |r.toRat| ≤ |ten.toRat| ∧ (r.toRat = 0 ∨ 0 < r.toRat * ten.toRat) ∧
        ((∃ k : ℤ, justBelowZero.toRat - r.toRat = k * ten.toRat) ∧ |r.toRat| < |ten.toRat| ↔
          ∃ e : Decimal, e.toRat = flooredRemainder justBelowZero.toRat ten.toRat) :=
  ⟨rfl, rfl, rfl, mod_rounds rfl rfl rfl⟩

end Library

end ComputedFields
