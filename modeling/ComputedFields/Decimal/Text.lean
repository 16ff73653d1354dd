import ComputedFields.Decimal.Arithmetic
import ComputedFields.Text.Digits

/-! The written form of a decimal: `toText` writes every digit that the number carries, and
`ofText?` reads such a text, with `_` between digits, a missing part on one side of the point,
and scientific notation. -/

namespace ComputedFields.Decimal

/-! ## Writing -/

/-- Sign, whole part, and as many digits after the point as the scale says. -/
def toChars (d : Decimal) : List Char :=
  (if d.negative then ['-'] else []) ++ Nat.toDigits 10 (d.mantissa / tenPow d.scale) ++
    (if d.scale = 0 then [] else '.' :: Digits.fixed d.scale d.mantissa)

/-- The written form. -/
def toText (d : Decimal) : String := String.ofList d.toChars

/-! ## Reading -/

/-- The number with this sign, mantissa and scale; zero has no sign. -/
def ofParts? (negative : Bool) (mantissa scale : Nat) : Option Decimal :=
  if h : mantissa < capacity ∧ scale ≤ maxScale then
    some ⟨negative && mantissa != 0, mantissa, scale, h.1, h.2⟩
  else none

/-- From this mantissa on, a number is long. -/
def longBound : Nat := 1844674407370954906

/-- Rounds on the digits that do not fit, by the first of them: from five up it raises the
mantissa, giving up one more digit if it is full. Separators may stand among these digits. One
in front counts as zero, unless the number was long before its last digit; then it is passed
over. -/
def roundOff (mantissa scale : Nat) (cs : List Char) : Option (Nat × Nat) :=
  let first := (if longBound ≤ mantissa / 10 then cs.dropWhile (· == '_') else cs).head?
  if !cs.all (fun c => c.isDigit || c == '_') then none
  else if !first.any (fun c => c.isDigit && decide (5 ≤ Digits.digit c)) then
    some (mantissa, scale)
  else if mantissa + 1 < capacity then some (mantissa + 1, scale)
  else if scale = 0 then none
  else some ((mantissa + 5) / 10, scale - 1)

/-- Reads digits, separators and one point. `point` tells whether the point has been read,
`hasDigit` whether a digit has. Digits after the point that do not fit are rounded away; a whole
part that does not fit is refused. -/
def readDigits (point hasDigit : Bool) (mantissa scale : Nat) : List Char → Option (Nat × Nat)
  | [] => if hasDigit then some (mantissa, scale) else none
  | c :: cs =>
    if scale = maxScale then roundOff mantissa scale (c :: cs)
    else if c.isDigit then
      let next := mantissa * 10 + Digits.digit c
      if next < capacity then readDigits point true next (if point then scale + 1 else scale) cs
      else if point then roundOff mantissa scale (c :: cs)
      else none
    else if c == '.' && !point then readDigits true hasDigit mantissa scale cs
    else if c == '_' && hasDigit then readDigits point hasDigit mantissa scale cs
    else none

/-- Reads an optional sign and digits without an exponent. -/
def readPlain? (cs : List Char) : Option Decimal :=
  let negative := cs.head? == some '-'
  let unsigned := if negative || cs.head? == some '+' then cs.tail else cs
  (readDigits false false 0 0 unsigned).bind fun (mantissa, scale) =>
    ofParts? negative mantissa scale

/-- What becomes of a number whose exponent asks for more than 28 digits after the point. -/
inductive Excess where
  | round
  | refuse
deriving DecidableEq, Repr

/-- The number times `10 ^ exponent`. -/
def shiftUp? (d : Decimal) (exponent : Nat) : Option Decimal :=
  if exponent ≤ d.scale then ofParts? d.negative d.mantissa (d.scale - exponent)
  else ofParts? d.negative (d.mantissa * tenPow (exponent - d.scale)) 0

/-- The number divided by `10 ^ exponent`. Rounding keeps the sign, also that of a zero. -/
def shiftDown? (excess : Excess) (d : Decimal) (exponent : Nat) : Option Decimal :=
  if d.scale + exponent ≤ maxScale then ofParts? d.negative d.mantissa (d.scale + exponent)
  else match excess with
    | .refuse => none
    | .round =>
      let rounded := d.round (maxScale - exponent) (Nat.sub_le _ _)
      some { d with
        mantissa := rounded.mantissa
        scale := maxScale
        mantissa_lt := rounded.mantissa_lt
        scale_le := Nat.le_refl _ }

/-- Reads a power of ten of at most 28: a `-` if it is negative, a `+` that changes nothing, and
digits. -/
def readExponent? (cs : List Char) : Option (Bool × Nat) :=
  let negative := cs.head? == some '-'
  let unsigned := if negative then cs.tail else cs
  let digits := if unsigned.head? == some '+' then unsigned.tail else unsigned
  if !digits.isEmpty && digits.all Char.isDigit && Digits.value digits ≤ maxScale then
    some (negative, Digits.value digits)
  else none

/-- Reads a number with an exponent: everything up to the first `e` is its mantissa. -/
def readScientific? (excess : Excess) (cs : List Char) : Option Decimal :=
  let isMark : Char → Bool := fun c => c == 'e' || c == 'E'
  match cs.dropWhile (!isMark ·) with
  | [] => none
  | _ :: exponent => do
    let base ← readPlain? (cs.takeWhile (!isMark ·))
    let (negative, power) ← readExponent? exponent
    if negative then shiftDown? excess base power else shiftUp? base power

/-- Reads a number in either notation. -/
def ofChars? (cs : List Char) : Option Decimal :=
  (readPlain? cs).orElse fun _ => readScientific? .round cs

/-- Reads a number in either notation. -/
def ofText? (text : String) : Option Decimal := ofChars? text.toList

end ComputedFields.Decimal
