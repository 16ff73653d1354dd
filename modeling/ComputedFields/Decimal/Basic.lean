import ComputedFields.Decimal.Power

/-! Exact decimal numbers: a sign, a mantissa below `2 ^ 96` and a count of digits after the
point, at most 28. The count is part of the number as it was written (`1.50` is not the same
datum as `1.5`) and plays no part in its order: `compare` and `sameNumber` look at the rational
value alone, and `normalize` picks the one datum without trailing zeros and without a negative
zero. -/

namespace ComputedFields

/-- Mantissas stay below this bound, `2 ^ 96`. -/
def Decimal.capacity : Nat := 79228162514264337593543950336

/-- The greatest number of digits after the point. -/
def Decimal.maxScale : Nat := 28

/-- The number `± mantissa / 10 ^ scale`. -/
structure Decimal where
  negative : Bool
  mantissa : Nat
  scale : Nat
  mantissa_lt : mantissa < Decimal.capacity
  scale_le : scale ≤ Decimal.maxScale
deriving DecidableEq, Repr

namespace Decimal

theorem capacity_pos : 0 < capacity := by decide

/-- Zero, without digits after the point. -/
def zero : Decimal := ⟨false, 0, 0, capacity_pos, Nat.zero_le _⟩

/-- One, without digits after the point. -/
def one : Decimal := ⟨false, 1, 0, by decide, Nat.zero_le _⟩

instance : Inhabited Decimal := ⟨zero⟩

/-- The whole number `n`, when its magnitude fits a mantissa. -/
def ofInt? (n : Int) : Option Decimal :=
  if h : n.natAbs < capacity then some ⟨decide (n < 0), n.natAbs, 0, h, Nat.zero_le _⟩ else none

/-- Whether the number is zero, of either sign. -/
def isZero (d : Decimal) : Bool := d.mantissa == 0

/-- The mantissa with the number's sign. -/
def signed (d : Decimal) : Int := if d.negative then -(d.mantissa : Int) else d.mantissa

/-! ## Order -/

/-- The order of the rational values: both mantissas are brought to a common scale. -/
def compare (a b : Decimal) : Ordering :=
  Ord.compare (a.signed * tenPow b.scale) (b.signed * tenPow a.scale)

/-- Whether two data denote one number; trailing zeros and the sign of zero do not count. -/
def sameNumber (a b : Decimal) : Bool :=
  a.signed * tenPow b.scale == b.signed * tenPow a.scale

/-- Whether `a` denotes a smaller number than `b`. -/
def lt (a b : Decimal) : Bool := a.compare b == .lt

/-! ## Sign -/

/-- The number with the other sign; zero changes sign too. -/
def neg (d : Decimal) : Decimal := { d with negative := !d.negative }

/-- The number without its sign. -/
def abs (d : Decimal) : Decimal := { d with negative := false }

/-! ## The shortest form -/

/-- A mantissa and a scale without the zeros that end the mantissa, as far as the scale goes. -/
def stripZeros (mantissa : Nat) : Nat → Nat × Nat
  | 0 => (mantissa, 0)
  | scale + 1 =>
    if mantissa % 10 = 0 then stripZeros (mantissa / 10) scale else (mantissa, scale + 1)

theorem stripZeros_fst_le (mantissa scale : Nat) : (stripZeros mantissa scale).1 ≤ mantissa := by
  induction scale generalizing mantissa with
  | zero => exact Nat.le_refl _
  | succ scale ih =>
    simp only [stripZeros]
    split
    · exact Nat.le_trans (ih _) (Nat.div_le_self _ _)
    · exact Nat.le_refl _

theorem stripZeros_snd_le (mantissa scale : Nat) : (stripZeros mantissa scale).2 ≤ scale := by
  induction scale generalizing mantissa with
  | zero => exact Nat.le_refl _
  | succ scale ih =>
    simp only [stripZeros]
    split
    · exact Nat.le_succ_of_le (ih _)
    · exact Nat.le_refl _

/-- The same number without zeros at the end of its digits after the point. -/
def shorten (d : Decimal) : Decimal where
  negative := d.negative
  mantissa := (stripZeros d.mantissa d.scale).1
  scale := (stripZeros d.mantissa d.scale).2
  mantissa_lt := Nat.lt_of_le_of_lt (stripZeros_fst_le _ _) d.mantissa_lt
  scale_le := Nat.le_trans (stripZeros_snd_le _ _) d.scale_le

/-- The same number with as few digits after the point as it needs; zero has none and no sign. -/
def normalize (d : Decimal) : Decimal := if d.mantissa = 0 then zero else d.shorten

end Decimal

end ComputedFields
