/-! Powers of ten. -/

namespace ComputedFields

/-- The power of ten with this exponent. -/
def tenPow (exponent : Nat) : Nat := Nat.pow 10 exponent

@[simp] theorem tenPow_zero : tenPow 0 = 1 := rfl

theorem tenPow_succ (exponent : Nat) : tenPow (exponent + 1) = tenPow exponent * 10 := rfl

theorem tenPow_pos (exponent : Nat) : 0 < tenPow exponent := Nat.pow_pos (by decide)

theorem tenPow_add (m n : Nat) : tenPow (m + n) = tenPow m * tenPow n := Nat.pow_add 10 m n

theorem ten_le_tenPow {exponent : Nat} (h : 0 < exponent) : 10 ≤ tenPow exponent :=
  Nat.pow_le_pow_right (by decide : 10 > 0) (Nat.succ_le_of_lt h)

end ComputedFields
