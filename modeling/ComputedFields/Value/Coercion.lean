import ComputedFields.Text.Blank
import ComputedFields.Value.Basic

/-! What operators and functions make of a value when they need a number, a text, a Boolean or a
date. Each coercion says why it fails. A list counts as its item where one value is needed. -/

namespace ComputedFields.Value

/-- The single value that a value stands for: an empty list is null and a list of one item is
that item. Longer lists stand for none. -/
def scalar : Value → Except ErrorKind Value
  | .list [] => .ok .null
  | .list [item] => item.scalar
  | .list _ => .error .typeMismatch
  | value => .ok value

/-- Reads a text as a number, without the white space around it. -/
def parseNumber? (s : String) : Option Decimal :=
  let cs := Text.trimChars s.toList
  if cs.isEmpty then none else Decimal.ofChars? cs

/-- The number that a single value stands for. -/
def scalarNumber : Value → Except ErrorKind Decimal
  | .number n => .ok n
  | .boolean b => .ok (if b then .one else .zero)
  | .text s =>
    match parseNumber? s with
    | some n => .ok n
    | none => .error .typeMismatch
  | .null => .error .nullOperand
  | .error kind => .error kind
  | _ => .error .typeMismatch

/-- The value as a number. -/
def toNumber (value : Value) : Except ErrorKind Decimal := value.scalar.bind scalarNumber

/-- The least whole number that a count may be. -/
def minInteger : Int := -9223372036854775808

/-- The greatest whole number that a count may be. -/
def maxInteger : Int := 9223372036854775807

/-- A whole number in the range of 64 bits. -/
def checkInteger (n : Int) : Except ErrorKind Int :=
  if minInteger ≤ n ∧ n ≤ maxInteger then .ok n else .error .numericOverflow

/-- The value as a whole number, without the digits after the point. -/
def toInteger (value : Value) : Except ErrorKind Int :=
  value.toNumber.bind fun n => checkInteger n.toInt

/-- The value as a length or position. -/
def toCount (value : Value) : Except ErrorKind Nat :=
  value.toInteger.bind fun n => if n < 0 then .error .invalidArgument else .ok n.toNat

/-- The items of the lists among some values, and the other values as they are. -/
def flatten (values : List Value) : List Value :=
  values.flatMap fun
    | .list items => items
    | value => [value]

/-- The first error among some values and the items of the lists among them. -/
def firstError? (values : List Value) : Option ErrorKind := (flatten values).findSome? error?

/-- The value as a text. A list has none while one of its items, or an item of a list among
them, is an error. -/
def asText : Value → Except ErrorKind String
  | .error kind => .error kind
  | .list items =>
    match firstError? items with
    | some kind => .error kind
    | none => .ok (toText (.list items))
  | value => .ok value.toText

/-- The Boolean that a single value stands for. -/
def scalarBool : Value → Except ErrorKind Bool
  | .boolean b => .ok b
  | .number n => .ok (!n.isZero)
  | .text s =>
    if Text.sameIgnoringCase s "true" then .ok true
    else if Text.sameIgnoringCase s "false" then .ok false
    else .error .typeMismatch
  | .null => .ok false
  | .error kind => .error kind
  | _ => .error .typeMismatch

/-- The value as a Boolean. -/
def toBool (value : Value) : Except ErrorKind Bool := value.scalar.bind scalarBool

/-- The date that a single value stands for. -/
def scalarDate : Value → Except ErrorKind Calendar.DateTime
  | .date d => .ok d
  | .text s =>
    match Calendar.DateTime.ofText? s with
    | some d => .ok d
    | none => .error .typeMismatch
  | .null => .error .nullOperand
  | .error kind => .error kind
  | _ => .error .typeMismatch

/-- The value as a date. -/
def toDate (value : Value) : Except ErrorKind Calendar.DateTime := value.scalar.bind scalarDate

end ComputedFields.Value
