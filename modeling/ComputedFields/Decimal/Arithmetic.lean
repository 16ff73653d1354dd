import ComputedFields.Decimal.Rounding

/-! The four operations and the remainder. Each result is the exact one rounded once, by
`Decimal.nearest?`, so an operation fails only where no whole number near the exact result fits
the mantissa. The digits after the point follow the operands: a sum has as many as the longer
one, a product as many as both together, and a quotient is worked out nine digits at a time. A
zero that comes out of a calculation has no sign. -/

namespace ComputedFields.Decimal

/-- Mantissas of both numbers at the greater of their scales. -/
def alignedMantissa (d : Decimal) (scale : Nat) : Int := d.signed * tenPow (scale - d.scale)

/-- The sum. Adding zero gives the other number as it is written. -/
def add? (a b : Decimal) : Option Decimal :=
  if a.isZero then some b
  else if b.isZero then some a
  else
    let scale := max a.scale b.scale
    let sum := a.alignedMantissa scale + b.alignedMantissa scale
    nearest? (decide (sum < 0)) sum.natAbs (tenPow scale) scale

/-- The difference: the sum with the second number's sign changed. -/
def sub? (a b : Decimal) : Option Decimal :=
  a.add? (if b.isZero then b else b.neg)

/-- A mantissa below this bound, `2 ^ 32`, is short. -/
def wordBound : Nat := 4294967296

/-- Whether two short numbers have so many digits after the point between them that nothing is
left of their product. -/
def vanish (a b : Decimal) : Bool :=
  decide (a.mantissa < wordBound) && decide (b.mantissa < wordBound) &&
    decide (47 < a.scale + b.scale)

/-- The product. A product with zero is plain zero, and so is one that vanishes. -/
def mul? (a b : Decimal) : Option Decimal :=
  if a.isZero || b.isZero || vanish a b then some zero
  else
    nearest? (a.negative != b.negative) (a.mantissa * b.mantissa) (tenPow (a.scale + b.scale))
      (min (a.scale + b.scale) maxScale)

/-! ## Division -/

/-- The scale at which the division of two mantissas comes out even when nine more digits are
worked out at a time, from `scale` on, or the greatest scale if it does not. -/
def evenScale (num den : Nat) (scale : Int) : Int :=
  if num % den = 0 then scale
  else if _ : scale < maxScale then
    let digits := min 9 (maxScale - scale).toNat
    evenScale (num * tenPow digits) den (scale + digits)
  else maxScale
termination_by (maxScale - scale).toNat
decreasing_by simp only [maxScale] at *; omega

/-- The number without `count` zeros at the end of its digits after the point, if it has so
many. -/
def dropZeros (count : Nat) (d : Decimal) : Decimal :=
  if count ≤ d.scale ∧ d.mantissa % tenPow count = 0 then
    { d with
      mantissa := d.mantissa / tenPow count
      scale := d.scale - count
      mantissa_lt := Nat.lt_of_le_of_lt (Nat.div_le_self _ _) d.mantissa_lt
      scale_le := Nat.le_trans (Nat.sub_le _ _) d.scale_le }
  else d

/-- The number without zeros at the end of its digits after the point as far as eight of them go
at a time, as long as the mantissa is also a multiple of `2 ^ 32`; at most `limit` times. -/
def dropEights : Nat → Decimal → Decimal
  | 0, d => d
  | limit + 1, d =>
    if d.mantissa % wordBound = 0 ∧ 8 ≤ d.scale ∧ d.mantissa % tenPow 8 = 0 then
      dropEights limit (d.dropZeros 8)
    else d

/-- The number without most of the zeros at the end of its digits after the point: they go in
eights, and then four, two and one of them, each once. -/
def dropMostZeros (d : Decimal) : Decimal :=
  (((d.dropEights 3).dropZeros 4).dropZeros 2).dropZeros 1

/-- The quotient by a number other than zero. One that comes out even with the digits that the
dividend has after the point beyond the divisor keeps that many; all others are rounded where
the digits end and lose most zeros at their end. -/
def div? (a b : Decimal) : Option Decimal :=
  if b.isZero then none
  else if a.isZero then some zero
  else
    let scale := evenScale a.mantissa b.mantissa ((a.scale : Int) - b.scale)
    let quotient? := nearest? (a.negative != b.negative) (a.mantissa * tenPow b.scale)
      (b.mantissa * tenPow a.scale) scale.toNat
    if a.mantissa % b.mantissa = 0 then quotient? else quotient?.map dropMostZeros

/-! ## Remainder -/

/-- The mantissa that remains of `a` after as many whole multiples of `b` as it holds. -/
def remainderMantissa (a b : Decimal) : Nat :=
  a.mantissa * tenPow (max a.scale b.scale - a.scale) %
    (b.mantissa * tenPow (max a.scale b.scale - b.scale))

theorem remainderMantissa_lt {a b : Decimal} (h : b.mantissa ≠ 0) :
    remainderMantissa a b < capacity := by
  unfold remainderMantissa
  have ha := a.mantissa_lt
  have hb := b.mantissa_lt
  rcases Nat.le_total a.scale b.scale with hs | hs
  · rw [Nat.max_eq_right hs, Nat.sub_self, tenPow_zero, Nat.mul_one]
    exact Nat.lt_trans (Nat.mod_lt _ (Nat.pos_of_ne_zero h)) hb
  · rw [Nat.max_eq_left hs, Nat.sub_self, tenPow_zero, Nat.mul_one]
    exact Nat.lt_of_le_of_lt (Nat.mod_le _ _) ha

/-- The remainder of a division with whole quotient, with the sign of the dividend unless it is
zero. A dividend smaller than the divisor is its own remainder, as it is written. -/
def rem? (a b : Decimal) : Option Decimal :=
  if h : b.mantissa = 0 then none
  else if a.isZero then some zero
  else match a.abs.compare b.abs with
    | .lt => some a
    | .eq => some zero
    | .gt =>
      some
        { negative := a.negative && remainderMantissa a b != 0
          mantissa := remainderMantissa a b
          scale := max a.scale b.scale
          mantissa_lt := remainderMantissa_lt h
          scale_le := Nat.max_le.2 ⟨a.scale_le, b.scale_le⟩ }

end ComputedFields.Decimal
