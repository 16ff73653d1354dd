import ComputedFields.Text.Ascii

/-! The kinds of error that an evaluation may end in, with the codes that stand for them in
place of a value. -/

namespace ComputedFields

/-- Why a formula has no ordinary value. -/
inductive ErrorKind where
  /-- Division, or a remainder, by zero. -/
  | divisionByZero
  /-- An operand of the wrong type. -/
  | typeMismatch
  /-- A call of a function that the library does not have. -/
  | unknownFunction
  /-- A call with a number of arguments that the function does not take. -/
  | arityMismatch
  /-- A blank where a value is needed. -/
  | nullOperand
  /-- An argument of the right type outside the accepted ones. -/
  | invalidArgument
  /-- A result that no number, date or span can hold. -/
  | numericOverflow
deriving DecidableEq, Repr

namespace ErrorKind

/-- All kinds. -/
def all : List ErrorKind :=
  [.divisionByZero, .typeMismatch, .unknownFunction, .arityMismatch, .nullOperand,
   .invalidArgument, .numericOverflow]

/-- The code shown in place of a value. -/
def code : ErrorKind → String
  | .divisionByZero => "#DIV/0!"
  | .typeMismatch => "#TYPE!"
  | .unknownFunction => "#NAME?"
  | .arityMismatch => "#ARGS!"
  | .nullOperand => "#NULL!"
  | .invalidArgument => "#ARG!"
  | .numericOverflow => "#NUM!"

/-- The kind that a code in any case stands for. -/
def ofCode? (code : String) : Option ErrorKind :=
  all.find? fun kind => Text.sameIgnoringCase kind.code code

/-- The name under which a kind is stored. -/
def name : ErrorKind → String
  | .divisionByZero => "division_by_zero"
  | .typeMismatch => "type_mismatch"
  | .unknownFunction => "unknown_function"
  | .arityMismatch => "arity_mismatch"
  | .nullOperand => "null_operand"
  | .invalidArgument => "invalid_argument"
  | .numericOverflow => "numeric_overflow"

/-- The kind stored under a name. -/
def ofName? (name : String) : Option ErrorKind := all.find? (·.name == name)

end ErrorKind

end ComputedFields
