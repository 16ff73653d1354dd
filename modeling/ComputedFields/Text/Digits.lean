/-! Decimal digits: numbers of fixed width, digit runs at the start of a text. -/

namespace ComputedFields.Digits

/-- The last `width` decimal digits of `n`, with leading zeros. -/
def fixed : Nat → Nat → List Char
  | 0, _ => []
  | width + 1, n => fixed width (n / 10) ++ [Nat.digitChar (n % 10)]

/-- The decimal digits of `n`, filled up with `fill` on the left to at least `width` characters. -/
def padded (fill : Char) (width n : Nat) : List Char :=
  List.replicate (width - (Nat.toDigits 10 n).length) fill ++ Nat.toDigits 10 n

/-- The number that a run of digits denotes. -/
def value (digits : List Char) : Nat := Nat.ofDigitChars 10 digits 0

/-- The value of one digit. -/
def digit (c : Char) : Nat := c.toNat - '0'.toNat

/-- Splits off the longest run of at most `limit` digits at the start. -/
def takeUpTo : Nat → List Char → List Char × List Char
  | 0, cs => ([], cs)
  | _, [] => ([], [])
  | limit + 1, c :: cs =>
    if c.isDigit then (c :: (takeUpTo limit cs).1, (takeUpTo limit cs).2) else ([], c :: cs)

theorem length_fixed (width n : Nat) : (fixed width n).length = width := by
  induction width generalizing n with
  | zero => rfl
  | succ width ih => simp [fixed, ih]

end ComputedFields.Digits
