import ComputedFields.Formula.Token
import ComputedFields.Schema

/-! Why a formula is refused, or a computation not begun. Positions are bytes from the start of
the source. -/

namespace ComputedFields

/-- What is wrong with a piece of source that is no token. -/
inductive LexFault where
  | loneExclamation
  | unexpectedCharacter (c : Char)
  | unterminatedText
  | unterminatedField
  | unknownEscape (c : Char)
  | emptyField
  | numberOutOfRange (lexeme : String)
deriving DecidableEq, Repr

/-- The wording of a fault. -/
def LexFault.reason : LexFault → String
  | .loneExclamation => "expected '=' after '!'"
  | .unexpectedCharacter c => "unexpected character " ++ Text.quotedChar c
  | .unterminatedText => "unterminated string literal"
  | .unterminatedField => "unterminated field reference"
  | .unknownEscape c => "unknown escape sequence \\" ++ String.singleton c
  | .emptyField => "empty field reference"
  | .numberOutOfRange lexeme => "number out of range: " ++ lexeme

/-- What could have stood in the place of an impossible token. -/
inductive Expectation where
  | expression
  | endOfInput
  | openParen
  | closeParen
  | argumentEnd
  | remoteField
deriving DecidableEq, Repr

/-- The wording of an expectation. -/
def Expectation.describe : Expectation → String
  | .expression => "expression"
  | .endOfInput => "end of input"
  | .openParen => "'(' after function name"
  | .closeParen => "')'"
  | .argumentEnd => "',' or ')'"
  | .remoteField => "field reference after '.'"

/-- A bound on what is computed. -/
inductive Limit where
  /-- The nesting of an expression. -/
  | depth
  /-- The number of nodes of an expression. -/
  | nodes
  /-- The number of cells computed at once. -/
  | batch
deriving DecidableEq, Repr

/-- The wording of a limit. -/
def Limit.describe : Limit → String
  | .depth => "expression depth"
  | .nodes => "expression size"
  | .batch => "recompute batch size"

/-- Why a formula is refused, or a computation not begun. -/
inductive FormulaError where
  | lex (position : Nat) (fault : LexFault)
  | parse (position : Nat) (expected : Expectation) (found : TokenKind)
  | unknownField (name : String) (position : Nat)
  | notALinkField (name : String) (position : Nat)
  | limitExceeded (limit : Limit) (max actual : Nat)
  /-- The field would read itself: each field of the path reads the next, and the last one the
  first. -/
  | circularDependency (path : List FieldId)
  /-- The field has no formula, or is not of the kind that has one. -/
  | noFormula (field : FieldId)
  /-- A formula reads a field that its table has no way to. -/
  | foreignField (field : FieldId) (table : TableId)
  /-- A change was reported for a computed field. -/
  | notASourceField (field : FieldId)
deriving DecidableEq, Repr

namespace FormulaError

/-- A path of fields back to its start. -/
def pathText (path : List FieldId) : String :=
  String.intercalate " -> " ((path ++ path.take 1).map FieldId.toText)

/-- The wording of an error. -/
def message : FormulaError → String
  | .lex position fault => "Lex error at " ++ toString position ++ ": " ++ fault.reason
  | .parse position expected found =>
    "Parse error at " ++ toString position ++ ": expected " ++ expected.describe ++ ", found " ++
      found.describe
  | .unknownField name position =>
    "Unknown field reference \x7b" ++ name ++ "\x7d at " ++ toString position
  | .notALinkField name position =>
    "Field \x7b" ++ name ++ "\x7d at " ++ toString position ++ " is not a link field"
  | .limitExceeded limit max actual =>
    limit.describe ++ " limit exceeded: " ++ toString actual ++ " > " ++ toString max
  | .circularDependency path => "Circular dependency: " ++ pathText path
  | .noFormula field => "Field " ++ field.toText ++ " has no formula"
  | .foreignField field table =>
    "Field " ++ field.toText ++ " is not reachable from table " ++ table.toText
  | .notASourceField field =>
    "Field " ++ field.toText ++ " is computed and cannot be changed directly"

/-- Where in the source the error lies, when it lies there. -/
def position? : FormulaError → Option Nat
  | .lex position _ | .parse position _ _ | .unknownField _ position
  | .notALinkField _ position => some position
  | _ => none

end FormulaError

end ComputedFields
