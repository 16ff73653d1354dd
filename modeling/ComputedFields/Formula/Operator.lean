import ComputedFields.Text.Order
import ComputedFields.Value.Coercion

/-! The operators of formulas on values. They never fail: a wrong type, a division by zero and an
overflow come back as error values. -/

namespace ComputedFields

/-- How tightly an operator binds, from the loosest. -/
inductive Level where
  | comparison
  | concatenation
  | addition
  | multiplication
deriving DecidableEq, Repr

/-- The levels as numbers, from 0; prefixed signs come after them and then operands. -/
def Level.rank : Level → Nat
  | .comparison => 0
  | .concatenation => 1
  | .addition => 2
  | .multiplication => 3

/-- An operator between two operands. -/
inductive BinaryOperator where
  | add
  | subtract
  | multiply
  | divide
  | concat
  | equal
  | notEqual
  | lessThan
  | lessEqual
  | greaterThan
  | greaterEqual
deriving DecidableEq, Repr

namespace BinaryOperator

/-- The operator in source text. -/
def symbol : BinaryOperator → String
  | .add => "+"
  | .subtract => "-"
  | .multiply => "*"
  | .divide => "/"
  | .concat => "&"
  | .equal => "="
  | .notEqual => "!="
  | .lessThan => "<"
  | .lessEqual => "<="
  | .greaterThan => ">"
  | .greaterEqual => ">="

/-- How tightly the operator binds. -/
def level : BinaryOperator → Level
  | .add | .subtract => .addition
  | .multiply | .divide => .multiplication
  | .concat => .concatenation
  | _ => .comparison

end BinaryOperator

namespace Value

/-! ## Comparison -/

/-- Equality of single values. Values of different types are unequal, but a null equals an empty
text, and a number equals a text that reads as it. -/
def equal : Value → Value → Bool
  | .null, .null => true
  | .null, .text s | .text s, .null => s.isEmpty
  | .number a, .number b => a.sameNumber b
  | .number n, .text s | .text s, .number n =>
    match parseNumber? s with
    | some m => m.sameNumber n
    | none => false
  | .text a, .text b => a == b
  | .boolean a, .boolean b => a == b
  | .date a, .date b => a == b
  | .duration a, .duration b => a == b
  | _, _ => false

/-- The order of single values of one type. -/
def compare : Value → Value → Except ErrorKind Ordering
  | .null, _ | _, .null => .error .nullOperand
  | .number a, .number b => .ok (a.compare b)
  | .text a, .text b => .ok (Text.compare a b)
  | .boolean a, .boolean b => .ok (Ord.compare a.toNat b.toNat)
  | .date a, .date b => .ok (a.compare b)
  | .duration a, .duration b => .ok (a.compare b)
  | _, _ => .error .typeMismatch

/-! ## Arithmetic -/

/-- A result, or the overflow error. -/
def orOverflow {α : Type} : Option α → Except ErrorKind α
  | some result => .ok result
  | none => .error .numericOverflow

/-- An operation on two single values as numbers. -/
def arithmetic (op : Decimal → Decimal → Except ErrorKind Decimal) (a b : Value) :
    Except ErrorKind Value :=
  if a.isNull || b.isNull then .error .nullOperand
  else do
    let x ← a.toNumber
    let y ← b.toNumber
    let result ← op x y
    return .number result

/-- The sum of two single values: numbers, spans of time, or a date and a span. -/
def add : Value → Value → Except ErrorKind Value
  | .date d, .duration span | .duration span, .date d => (orOverflow (d.add? span)).map .date
  | .duration a, .duration b => (orOverflow (a.add? b)).map .duration
  | .date _, _ | _, .date _ => .error .typeMismatch
  | a, b => arithmetic (fun x y => orOverflow (x.add? y)) a b

/-- The difference of two single values: numbers, spans of time, a date and a span, or two dates,
which are a span apart. -/
def subtract : Value → Value → Except ErrorKind Value
  | .date d, .duration span => (orOverflow (d.sub? span)).map .date
  | .date a, .date b => .ok (.duration (a.since b))
  | .duration a, .duration b => (orOverflow (a.sub? b)).map .duration
  | .date _, _ | _, .date _ => .error .typeMismatch
  | a, b => arithmetic (fun x y => orOverflow (x.sub? y)) a b

/-- The product of two single values. -/
def multiply (a b : Value) : Except ErrorKind Value :=
  arithmetic (fun x y => orOverflow (x.mul? y)) a b

/-- The quotient of two single values. -/
def divide (a b : Value) : Except ErrorKind Value :=
  arithmetic (fun x y => if y.isZero then .error .divisionByZero else orOverflow (x.div? y)) a b

/-- The texts of two values, one after the other. -/
def concat (a b : Value) : Except ErrorKind Value := do
  let x ← a.asText
  let y ← b.asText
  return .text (x ++ y)

/-! ## Application -/

/-- The result of an operator on single values, none of which is an error. -/
def applyScalar (op : BinaryOperator) (a b : Value) : Except ErrorKind Value :=
  match op with
  | .add => add a b
  | .subtract => subtract a b
  | .multiply => multiply a b
  | .divide => divide a b
  | .concat => concat a b
  | .equal => .ok (.boolean (equal a b))
  | .notEqual => .ok (.boolean (!equal a b))
  | .lessThan => (compare a b).map fun o => .boolean o.isLT
  | .lessEqual => (compare a b).map fun o => .boolean o.isLE
  | .greaterThan => (compare a b).map fun o => .boolean o.isGT
  | .greaterEqual => (compare a b).map fun o => .boolean o.isGE

/-- The result of an operator on any two values. Errors come first, the left one before the
right; concatenation takes lists as they are, and every other operator takes single values. -/
def applyBinary (op : BinaryOperator) (left right : Value) : Value :=
  match left.error?.or right.error? with
  | some kind => .error kind
  | none =>
    if op = .concat then ofResult (concat left right)
    else
      match left.scalar, right.scalar with
      | .error kind, _ => .error kind
      | .ok _, .error kind => .error kind
      | .ok a, .ok b =>
        match a.error?.or b.error? with
        | some kind => .error kind
        | none => ofResult (applyScalar op a b)

/-- The negation of a single value: a number or a span of time. -/
def negateScalar : Value → Except ErrorKind Value
  | .error kind => .error kind
  | .null => .error .nullOperand
  | .duration d => .ok (.duration d.neg)
  | value => value.toNumber.map fun n => .number n.neg

/-- The negation of any value. -/
def applyNegate (operand : Value) : Value := ofResult (operand.scalar.bind negateScalar)

end Value

end ComputedFields
