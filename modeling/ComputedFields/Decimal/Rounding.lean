import ComputedFields.Decimal.Basic

/-! Rounding of exact quotients to decimals. Every rounding in the library is `roundDiv`, the
nearest whole number to a quotient with a stated choice on ties; `nearest?` keeps as many digits
of a quotient as a mantissa holds. -/

namespace ComputedFields

/-- Which neighbour a quotient half way between two whole numbers goes to. -/
inductive Tie where
  | toEven
  | awayFromZero
deriving DecidableEq, Repr

/-- Whether the remainder `rem` of a division by `den` rounds the quotient `quo` up. -/
def Tie.roundsUp : Tie → (quo rem den : Nat) → Bool
  | .toEven, quo, rem, den => den < 2 * rem || (2 * rem == den && quo % 2 == 1)
  | .awayFromZero, _, rem, den => den ≤ 2 * rem

/-- The whole number nearest to `num / den`. -/
def roundDiv (tie : Tie) (num den : Nat) : Nat :=
  if tie.roundsUp (num / den) (num % den) den then num / den + 1 else num / den

theorem roundDiv_le (tie : Tie) (num den : Nat) : roundDiv tie num den ≤ num / den + 1 := by
  unfold roundDiv
  split <;> omega

theorem roundDiv_le_of_two_le {tie : Tie} {num den : Nat} (h : 2 ≤ den) :
    roundDiv tie num den ≤ num := by
  unfold roundDiv
  have hdiv : num / den * den + num % den = num := by
    rw [Nat.mul_comm]; exact Nat.div_add_mod num den
  have hmul : num / den * 2 ≤ num / den * den := Nat.mul_le_mul_left _ h
  split
  · rename_i hup
    by_cases hrem : num % den = 0
    · cases tie <;> simp [Tie.roundsUp, hrem] at hup <;> omega
    · omega
  · omega

namespace Decimal

/-- The number nearest to `± num / den` at the greatest scale up to `scale` at which the rounded
mantissa fits; a tie goes to the even mantissa, and zero has no sign. There is none when not even
the nearest whole number fits. -/
def nearest? (negative : Bool) (num den : Nat) (scale : Nat) : Option Decimal :=
  let mantissa := roundDiv .toEven (num * tenPow scale) den
  if h : mantissa < capacity ∧ scale ≤ maxScale then
    some ⟨negative && mantissa != 0, mantissa, scale, h.1, h.2⟩
  else
    match scale with
    | 0 => none
    | scale + 1 => nearest? negative num den scale

/-- The number rounded to at most `places` digits after the point, a tie away from zero. What is
rounded to zero has no sign. -/
def round (d : Decimal) (places : Nat) (h : places ≤ maxScale) : Decimal :=
  if hs : d.scale ≤ places then d
  else
    { negative :=
        d.negative && roundDiv .awayFromZero d.mantissa (tenPow (d.scale - places)) != 0
      mantissa := roundDiv .awayFromZero d.mantissa (tenPow (d.scale - places))
      scale := places
      mantissa_lt := by
        refine Nat.lt_of_le_of_lt (roundDiv_le_of_two_le ?_) d.mantissa_lt
        have : 10 ≤ tenPow (d.scale - places) := ten_le_tenPow (by omega)
        omega
      scale_le := h }

/-- The number without its digits after the point. -/
def truncate (d : Decimal) : Decimal :=
  { d with
    mantissa := d.mantissa / tenPow d.scale
    scale := 0
    mantissa_lt := Nat.lt_of_le_of_lt (Nat.div_le_self _ _) d.mantissa_lt
    scale_le := Nat.zero_le _ }

/-- The whole number that `truncate` leaves. -/
def toInt (d : Decimal) : Int :=
  if d.negative then -((d.mantissa / tenPow d.scale : Nat) : Int) else (d.mantissa / tenPow d.scale : Nat)

/-- The greatest whole number that is not above the number. -/
def floor (d : Decimal) : Decimal :=
  if d.scale = 0 then d
  else if h : d.negative = true ∧ d.mantissa % tenPow d.scale ≠ 0 then
    { negative := true
      mantissa := d.mantissa / tenPow d.scale + 1
      scale := 0
      mantissa_lt := by
        have hd := Nat.div_add_mod d.mantissa (tenPow d.scale)
        have hp : 0 < tenPow d.scale := tenPow_pos _
        have hm : d.mantissa / tenPow d.scale ≤ tenPow d.scale * (d.mantissa / tenPow d.scale) :=
          Nat.le_mul_of_pos_left _ hp
        have := d.mantissa_lt
        have := h.2
        omega
      scale_le := Nat.zero_le _ }
  else d.truncate

end Decimal

end ComputedFields
