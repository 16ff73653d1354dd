import ComputedFields.Formula.Operator
import ComputedFields.Library.Function

/-! Numeric functions. The aggregates look into the lists among their arguments and pass over
blanks. -/

namespace ComputedFields.Library

open Value (ofInt orOverflow)

/-- Ten, the base of `ROUND`'s places. -/
def ten : Decimal := ⟨false, 10, 0, by decide, Nat.zero_le _⟩

/-- The numbers among the arguments. -/
def numbers (args : List Value) : Except ErrorKind (List Decimal) :=
  ((Value.flatten args).filter fun value => !value.isBlank).mapM Value.toNumber

/-- The sum of some numbers, added from left to right. -/
def total (ns : List Decimal) : Except ErrorKind Decimal :=
  ns.foldlM (fun sum n => orOverflow (sum.add? n)) .zero

def sum (args : List Value) : Except ErrorKind Value := do
  let ns ← numbers args
  let result ← total ns
  return .number result

def average (args : List Value) : Except ErrorKind Value := do
  let ns ← numbers args
  if ns.isEmpty then .error .divisionByZero
  else do
    let result ← total ns
    let count ← orOverflow (Decimal.ofInt? ns.length)
    let quotient ← orOverflow (result.div? count)
    return .number quotient

/-- The first of the least numbers. -/
def least? : List Decimal → Option Decimal
  | [] => none
  | n :: ns => some (ns.foldl (fun least m => if m.lt least then m else least) n)

/-- The last of the greatest numbers. -/
def greatest? : List Decimal → Option Decimal
  | [] => none
  | n :: ns => some (ns.foldl (fun greatest m => if m.lt greatest then greatest else m) n)

/-- A number, or null where there is none. -/
def numberOrNull : Option Decimal → Value
  | some n => .number n
  | none => .null

def minimum (args : List Value) : Except ErrorKind Value :=
  (numbers args).map fun ns => numberOrNull (least? ns)

def maximum (args : List Value) : Except ErrorKind Value :=
  (numbers args).map fun ns => numberOrNull (greatest? ns)

/-- Whether a value is of the number type. -/
def isNumber : Value → Bool
  | .number _ => true
  | _ => false

def count (args : List Value) : Except ErrorKind Value :=
  .ok (ofInt ((Value.flatten args).countP isNumber))

def absolute : List Value → Except ErrorKind Value
  | [a] => a.toNumber.map fun n => .number n.abs
  | _ => .error .arityMismatch

/-- A power of ten, by repeated multiplication. -/
def powerOfTen : Nat → Except ErrorKind Decimal
  | 0 => .ok .one
  | k + 1 => (powerOfTen k).bind fun p => orOverflow (p.mul? ten)

/-- The number rounded to a count of digits after the point. Beyond 28 digits there is nothing
to round, and counts of 32 bits and more are refused. -/
def roundDigits (n : Decimal) (digits : Nat) : Except ErrorKind Decimal :=
  if 4294967296 ≤ digits then .error .invalidArgument
  else .ok (n.round (min digits Decimal.maxScale) (Nat.min_le_right _ _))

/-- The number rounded to a multiple of a power of ten. -/
def roundPower (n : Decimal) (power : Nat) : Except ErrorKind Decimal := do
  let factor ← powerOfTen (min power 29)
  let scaled ← orOverflow (n.div? factor)
  orOverflow ((scaled.round 0 (Nat.zero_le _)).mul? factor)

/-- Half goes away from zero; a negative count of digits rounds to tens, hundreds and so on. -/
def roundTo (n : Decimal) (digits : Int) : Except ErrorKind Value :=
  (if 0 ≤ digits then roundDigits n digits.toNat else roundPower n digits.natAbs).map .number

def round : List Value → Except ErrorKind Value
  | [a] => do
    let n ← a.toNumber
    roundTo n 0
  | [a, b] => do
    let n ← a.toNumber
    let digits ← b.toInteger
    roundTo n digits
  | _ => .error .arityMismatch

/-- The remainder with the sign of the divisor. -/
def modulo (n d : Decimal) : Except ErrorKind Decimal :=
  if d.isZero then .error .divisionByZero
  else do
    let r ← orOverflow (n.rem? d)
    if !r.isZero && r.negative != d.negative then orOverflow (r.add? d) else return r

def mod : List Value → Except ErrorKind Value
  | [a, b] => do
    let n ← a.toNumber
    let d ← b.toNumber
    let r ← modulo n d
    return .number r
  | _ => .error .arityMismatch

def int : List Value → Except ErrorKind Value
  | [a] => a.toNumber.map fun n => .number n.floor
  | _ => .error .arityMismatch

end ComputedFields.Library
