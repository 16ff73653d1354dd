import ComputedFields.Decimal.Text
import ComputedFields.Text.Quoted

/-! The tokens of formula source. -/

namespace ComputedFields

/-- What a token is. -/
inductive TokenKind where
  | number (value : Decimal)
  | text (value : String)
  | boolean (value : Bool)
  /-- A field name between braces. -/
  | field (name : String)
  /-- The name of a function. -/
  | identifier (name : String)
  | plus
  | minus
  | star
  | slash
  | ampersand
  | equal
  | notEqual
  | lessThan
  | lessEqual
  | greaterThan
  | greaterEqual
  | leftParen
  | rightParen
  | comma
  | dot
  /-- The end of the source. -/
  | eof
deriving DecidableEq, Repr

/-- A token, the source text that it was read from, and the byte at which that starts. -/
structure Token where
  kind : TokenKind
  lexeme : String
  offset : Nat
deriving DecidableEq, Repr

/-- How a message names a token. -/
def TokenKind.describe : TokenKind → String
  | .number value => "number " ++ value.toText
  | .text value => "text " ++ Text.quoted value
  | .boolean value => if value then "boolean TRUE" else "boolean FALSE"
  | .field name => "field \x7b" ++ name ++ "\x7d"
  | .identifier name => "identifier " ++ name
  | .plus => "'+'"
  | .minus => "'-'"
  | .star => "'*'"
  | .slash => "'/'"
  | .ampersand => "'&'"
  | .equal => "'='"
  | .notEqual => "'!='"
  | .lessThan => "'<'"
  | .lessEqual => "'<='"
  | .greaterThan => "'>'"
  | .greaterEqual => "'>='"
  | .leftParen => "'('"
  | .rightParen => "')'"
  | .comma => "','"
  | .dot => "'.'"
  | .eof => "end of input"

end ComputedFields
