import ComputedFields.Value.Coercion

/-! What the library knows of a function beside its name: how many arguments it takes, what
becomes of errors among them, whether it reads the clock, and what it computes. -/

namespace ComputedFields

/-- What an argument is meant to be, as signatures show it. Arguments are not held to it: each
function coerces its own. -/
inductive ArgumentKind where
  | any
  | number
  | integer
  | text
  | boolean
  | date
  | duration
  | list
deriving DecidableEq, Repr

/-- The word for a kind of argument. -/
def ArgumentKind.word : ArgumentKind → String
  | .any => "any"
  | .number => "number"
  | .integer => "integer"
  | .text => "text"
  | .boolean => "boolean"
  | .date => "date"
  | .duration => "duration"
  | .list => "list"

/-- What becomes of errors among the arguments of a function. -/
inductive ErrorMode where
  /-- The first error is the result. -/
  | propagate
  /-- The function sees the errors and decides. -/
  | absorb
deriving DecidableEq, Repr

/-- A function of the library. -/
structure Function where
  name : String
  minArgs : Nat
  /-- The greatest number of arguments, if there is one. -/
  maxArgs : Option Nat
  /-- The kinds of the arguments; the last one stands for all further arguments. -/
  params : List ArgumentKind
  errors : ErrorMode := .propagate
  /-- Whether the result depends on the clock. -/
  volatile : Bool := false
  /-- The result for the time on the clock and the arguments, as many as the function takes. -/
  run : Calendar.DateTime → List Value → Except ErrorKind Value

namespace Function

/-- Whether the function takes this many arguments. -/
def accepts (f : Function) (count : Nat) : Bool :=
  f.minArgs ≤ count && f.maxArgs.all (count ≤ ·)

/-- One parameter of the signature. -/
def parameter (f : Function) (index : Nat) : String :=
  let kind := ((f.params[index]?).or f.params.getLast?).getD .any
  if index < f.minArgs then kind.word else "[" ++ kind.word ++ "]"

/-- The signature, such as `LEFT(text, [integer])`. -/
def signature (f : Function) : String :=
  let shown := f.maxArgs.getD (max f.minArgs f.params.length)
  let parameters := (List.range shown).map f.parameter
  let more := if f.maxArgs.isNone then ["..."] else []
  f.name ++ "(" ++ String.intercalate ", " (parameters ++ more) ++ ")"

/-- The result for evaluated arguments, as many as the function takes. -/
def apply (f : Function) (now : Calendar.DateTime) (args : List Value) : Value :=
  match f.errors, Value.firstError? args with
  | .propagate, some kind => .error kind
  | _, _ => Value.ofResult (f.run now args)

end Function

end ComputedFields
