import ComputedFields.Formula.Error
import ComputedFields.Text.Ascii
import ComputedFields.Text.Letter

/-! From source text to tokens. `scan` reads one token from its first character and tells how
many characters follow it; `tokenize` repeats that, passing over white space, up to the token
that marks the end. -/

namespace ComputedFields

/-- A fault, and how many characters after the start of its token it lies. -/
structure FaultAt where
  ahead : Nat
  fault : LexFault
deriving DecidableEq, Repr

namespace Token

/-- The bytes of some characters. -/
def bytes : List Char → Nat
  | [] => 0
  | c :: cs => c.utf8Size + bytes cs

/-! ## Texts and fields -/

/-- The characters that a backslash may stand before in a text, and what it makes of them. -/
def textEscape? : Char → Option Char
  | '"' => some '"'
  | '\'' => some '\''
  | '\\' => some '\\'
  | 'n' => some '\n'
  | 't' => some '\t'
  | _ => none

/-- The characters that a backslash may stand before in a field name. -/
def fieldEscape? : Char → Option Char
  | '\x7b' => some '\x7b'
  | '\x7d' => some '\x7d'
  | '\\' => some '\\'
  | _ => none

/-- Reads up to the closing character: what was meant, and the number of characters read.
`ahead` characters of the token have been read before. -/
def readUntil (close : Char) (escape? : Char → Option Char) (unterminated : LexFault)
    (ahead : Nat) : List Char → Except FaultAt (List Char × Nat)
  | [] => .error ⟨0, unterminated⟩
  | [c] => if c = close then .ok ([], ahead) else .error ⟨0, unterminated⟩
  | c :: d :: cs =>
    if c = close then .ok ([], ahead)
    else if c = '\\' then
      match escape? d with
      | some e =>
        match readUntil close escape? unterminated (ahead + 2) cs with
        | .ok (meant, size) => .ok (e :: meant, size)
        | .error fault => .error fault
      | none => .error ⟨ahead, .unknownEscape d⟩
    else
      match readUntil close escape? unterminated (ahead + 1) (d :: cs) with
      | .ok (meant, size) => .ok (c :: meant, size)
      | .error fault => .error fault

/-- Reads a text after its opening quote. -/
def scanText (quote : Char) (cs : List Char) : Except FaultAt (TokenKind × Nat) :=
  match readUntil quote textEscape? .unterminatedText 1 cs with
  | .ok (meant, size) => .ok (.text (String.ofList meant), size)
  | .error fault => .error fault

/-- Reads a field name after its opening brace; white space around it does not count. -/
def scanField (cs : List Char) : Except FaultAt (TokenKind × Nat) :=
  match readUntil '\x7d' fieldEscape? .unterminatedField 1 cs with
  | .ok (meant, size) =>
    if (Text.trimChars meant).isEmpty then .error ⟨0, .emptyField⟩
    else .ok (.field (String.ofList (Text.trimChars meant)), size)
  | .error fault => .error fault

/-! ## Numbers -/

/-- The length of the run of digits at the start. -/
def digitRun (cs : List Char) : Nat := (cs.takeWhile Char.isDigit).length

/-- The length of a point with digits after it, zero where there is none. -/
def fractionLength : List Char → Nat
  | '.' :: cs => if digitRun cs = 0 then 0 else digitRun cs + 1
  | _ => 0

/-- The length of an exponent, zero where no digits follow its mark. -/
def exponentLength : List Char → Nat
  | mark :: cs =>
    if mark = 'e' || mark = 'E' then
      let signs := if cs.head? = some '+' || cs.head? = some '-' then 1 else 0
      if digitRun (cs.drop signs) = 0 then 0 else digitRun (cs.drop signs) + signs + 1
    else 0
  | [] => 0

/-- The length of the number at the start, and whether it has an exponent. -/
def numberLength (cs : List Char) : Nat × Bool :=
  let whole := digitRun cs
  let fraction := fractionLength (cs.drop whole)
  let exponent := exponentLength (cs.drop (whole + fraction))
  (whole + fraction + exponent, exponent != 0)

/-- Reads a number. One that needs more than 28 digits after the point because of its exponent is
out of range. -/
def scanNumber (cs : List Char) : Except FaultAt (TokenKind × Nat) :=
  let (size, scientific) := numberLength cs
  let lexeme := cs.take size
  match if scientific then Decimal.readScientific? .refuse lexeme else Decimal.ofChars? lexeme with
  | some n => .ok (.number n, size - 1)
  | none => .error ⟨0, .numberOutOfRange (String.ofList lexeme)⟩

/-! ## Words -/

/-- Whether a word may start with the character. -/
def startsWord (c : Char) : Bool := Text.isAlphabetic c || c == '_'

/-- Whether a word may go on with the character. -/
def continuesWord (c : Char) : Bool := Text.isAlphanumeric c || c == '_'

/-- Reads a word: a truth value, unless an opening parenthesis follows, or the name of a
function. -/
def scanWord (cs : List Char) : TokenKind × Nat :=
  let word := cs.takeWhile continuesWord
  let called := (Text.trimStart (cs.dropWhile continuesWord)).head? == some '('
  let name := String.ofList word
  let kind : TokenKind :=
    if !called && Text.sameIgnoringCase name "TRUE" then .boolean true
    else if !called && Text.sameIgnoringCase name "FALSE" then .boolean false
    else .identifier name
  (kind, word.length - 1)

/-! ## One token -/

/-- The tokens of one character that no longer token starts with. -/
def single? : Char → Option TokenKind
  | '+' => some .plus
  | '-' => some .minus
  | '*' => some .star
  | '/' => some .slash
  | '&' => some .ampersand
  | '=' => some .equal
  | '(' => some .leftParen
  | ')' => some .rightParen
  | ',' => some .comma
  | _ => none

/-- Reads the token that starts with `c`: its kind, and the number of characters after `c`. -/
def scan (c : Char) (cs : List Char) : Except FaultAt (TokenKind × Nat) :=
  match single? c with
  | some kind => .ok (kind, 0)
  | none =>
    if c = '!' then
      if cs.head? = some '=' then .ok (.notEqual, 1) else .error ⟨0, .loneExclamation⟩
    else if c = '<' then
      if cs.head? = some '=' then .ok (.lessEqual, 1)
      else if cs.head? = some '>' then .ok (.notEqual, 1)
      else .ok (.lessThan, 0)
    else if c = '>' then
      if cs.head? = some '=' then .ok (.greaterEqual, 1) else .ok (.greaterThan, 0)
    else if c = '"' || c = '\'' then scanText c cs
    else if c = '\x7b' then scanField cs
    else if c.isDigit || (c = '.' && cs.head?.any Char.isDigit) then scanNumber (c :: cs)
    else if c = '.' then .ok (.dot, 0)
    else if startsWord c then .ok (scanWord (c :: cs))
    else .error ⟨0, .unexpectedCharacter c⟩

/-! ## All tokens -/

/-- Reads the tokens of the characters from a byte on. -/
def tokensFrom (offset : Nat) (cs : List Char) : Except FormulaError (List Token) :=
  match cs with
  | [] => .ok [⟨.eof, "", offset⟩]
  | c :: cs =>
    if Text.isBlank c then tokensFrom (offset + c.utf8Size) cs
    else
      match scan c cs with
      | .error ⟨ahead, fault⟩ => .error (.lex (offset + bytes ((c :: cs).take ahead)) fault)
      | .ok (kind, extra) =>
        let lexeme := c :: cs.take extra
        match tokensFrom (offset + bytes lexeme) (cs.drop extra) with
        | .error e => .error e
        | .ok tokens => .ok (⟨kind, String.ofList lexeme, offset⟩ :: tokens)
termination_by cs.length
decreasing_by all_goals simp only [List.length_cons, List.length_drop]; omega

end Token

/-- The tokens of a source text, the mark of its end last. -/
def tokenize (source : String) : Except FormulaError (List Token) :=
  Token.tokensFrom 0 source.toList

end ComputedFields
