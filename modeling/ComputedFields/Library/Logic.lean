import ComputedFields.Library.Function

/-! Logical functions and tests. -/

namespace ComputedFields.Library

/-- Whether all arguments and all items of the lists among them are true. Every one is read as a
Boolean, also after the first that is false. -/
def conjunction (args : List Value) : Except ErrorKind Value :=
  ((Value.flatten args).mapM Value.toBool).map fun bs => .boolean (bs.all id)

/-- Whether one of the arguments or of the items of the lists among them is true. -/
def disjunction (args : List Value) : Except ErrorKind Value :=
  ((Value.flatten args).mapM Value.toBool).map fun bs => .boolean (bs.any id)

def negation : List Value → Except ErrorKind Value
  | [a] => a.toBool.map fun b => .boolean !b
  | _ => .error .arityMismatch

/-- An error is not blank. -/
def isBlank : List Value → Except ErrorKind Value
  | [a] => .ok (.boolean a.isBlank)
  | _ => .error .arityMismatch

/-- Whether the argument is an error or a list with one among its items. -/
def isError : List Value → Except ErrorKind Value
  | [a] => .ok (.boolean (Value.firstError? [a]).isSome)
  | _ => .error .arityMismatch

/-- The first argument, or the second in place of an error. -/
def ifError : List Value → Except ErrorKind Value
  | [a, fallback] => .ok (if (Value.firstError? [a]).isSome then fallback else a)
  | _ => .error .arityMismatch

/-- A call of `IF` that the parser has not made a conditional. -/
def conditional (_ : List Value) : Except ErrorKind Value := .error .arityMismatch

end ComputedFields.Library
