import ComputedFields.Formula.Expr

/-! Formulas as source text. An operand is put into parentheses only where reading it back
without them would give another tree: below its operator's level, or on it to the right of an
operator. -/

namespace ComputedFields.Expr

/-- How tightly the outermost part of a tree binds when it is written: the levels of the
operators from 0, then signs, then operands that are whole by themselves. -/
def strength : Expr → Nat
  | .binary op _ _ => op.level.rank
  | .negate _ => 4
  | .literal (.number n) => if n.negative then 4 else 5
  | _ => 5

/-- One character inside a written text. -/
def escapeText (c : Char) : List Char :=
  if c = '"' || c = '\\' then ['\\', c]
  else if c = '\n' then ['\\', 'n']
  else if c = '\t' then ['\\', 't']
  else [c]

/-- A text between double quotes. -/
def writeText (s : String) : List Char := ['"'] ++ s.toList.flatMap escapeText ++ ['"']

/-- One character inside a written field name. -/
def escapeField (c : Char) : List Char :=
  if c = '\x7b' || c = '\x7d' || c = '\\' then ['\\', c] else [c]

/-- A field name between braces. -/
def writeField (name : String) : List Char :=
  ['\x7b'] ++ name.toList.flatMap escapeField ++ ['\x7d']

/-- A literal. The values that source text has no literals for are written as their texts, and a
null as a call that gives it. -/
def writeLiteral : Value → List Char
  | .null => "BLANK()".toList
  | .boolean value => if value then "TRUE".toList else "FALSE".toList
  | .number n => n.normalize.toChars
  | .text s => writeText s
  | value => writeText value.toText

/-- The characters in parentheses, if they need them. -/
def parenthesize (needed : Bool) (cs : List Char) : List Char :=
  if needed then ['('] ++ cs ++ [')'] else cs

mutual

/-- The characters of a formula, with fields under the names that `nameOf` gives them. -/
def write (nameOf : FieldId → String) : Expr → List Char
  | .literal value => writeLiteral value
  | .field f => writeField (nameOf f)
  | .lookup link f => writeField (nameOf link) ++ ['.'] ++ writeField (nameOf f)
  | .negate operand =>
    ['-'] ++ parenthesize (decide (operand.strength < 4)) (write nameOf operand)
  | .binary op left right =>
    parenthesize (decide (left.strength < op.level.rank)) (write nameOf left) ++
      [' '] ++ op.symbol.toList ++ [' '] ++
      parenthesize (decide (right.strength ≤ op.level.rank)) (write nameOf right)
  | .conditional condition yes none =>
    "IF(".toList ++ write nameOf condition ++ [',', ' '] ++ write nameOf yes ++ [')']
  | .conditional condition yes (some no) =>
    "IF(".toList ++ write nameOf condition ++ [',', ' '] ++ write nameOf yes ++ [',', ' '] ++
      write nameOf no ++ [')']
  | .call name args => name.toList ++ ['('] ++ writeAll nameOf args ++ [')']

/-- The characters of arguments, with a comma and a space between. -/
def writeAll (nameOf : FieldId → String) : List Expr → List Char
  | [] => []
  | [e] => write nameOf e
  | e :: next :: rest => write nameOf e ++ [',', ' '] ++ writeAll nameOf (next :: rest)

end

/-- The name that a resolver gives a field, or its number where it gives none. -/
def nameIn (resolver : Resolver) (f : FieldId) : String :=
  (resolver.fieldName f).getD f.toText

/-- The source text of a formula, with fields by name. -/
def toSource (resolver : Resolver) (e : Expr) : String := String.ofList (e.write (nameIn resolver))

/-- The text of a formula with fields by number. -/
def toText (e : Expr) : String := String.ofList (e.write FieldId.toText)

end ComputedFields.Expr
