import ComputedFields.Calendar.Iso
import ComputedFields.Value.Basic
import ComputedFields.Schema
import ComputedFields.Formula.Error

/-! What the values of options say about a record: the value of a field, the fields of a link,
and the values of a field behind a link. -/

namespace ComputedFields.CommandLine

/-! ## Failures -/

/-- Why a command fails. -/
inductive Failure where
  | noAssignment (spec : String)
  | noFieldName (spec : String)
  | noLinkFields (spec : String)
  | noLookup (spec : String)
  | noLookupTarget (target : String)
  | invalidNow (text : String)
  | alreadyPlain (link : String)
  | invalidField (name : String) (cause : SchemaError)
  | invalidLink (link : String) (cause : SchemaError)
  | invalidLinkedField (name link : String) (cause : SchemaError)
  | invalidFormula (formula : String) (cause : FormulaError)
deriving DecidableEq, Repr

namespace Failure

/-- The wording of a failure. -/
def message : Failure → String
  | .noAssignment spec => "Expected NAME=VALUE, got '" ++ spec ++ "'"
  | .noFieldName spec => "Missing field name in '" ++ spec ++ "'"
  | .noLinkFields spec => "Expected LINK=FIELD,..., got '" ++ spec ++ "'"
  | .noLookup spec => "Expected LINK.FIELD=V,..., got '" ++ spec ++ "'"
  | .noLookupTarget target => "Expected LINK.FIELD before '=', got '" ++ target ++ "'"
  | .invalidNow text => "Invalid date for --now: '" ++ text ++ "'"
  | .alreadyPlain link => "'" ++ link ++ "' is already declared as a plain field"
  | .invalidField name _ => "Invalid field '" ++ name ++ "'"
  | .invalidLink link _ => "Invalid link field '" ++ link ++ "'"
  | .invalidLinkedField name link _ => "Invalid field '" ++ name ++ "' on link '" ++ link ++ "'"
  | .invalidFormula formula _ => "Failed to compile '" ++ formula ++ "'"

/-- What lies behind a failure. -/
def cause? : Failure → Option String
  | .invalidField _ cause | .invalidLink _ cause | .invalidLinkedField _ _ cause =>
    some cause.message
  | .invalidFormula _ cause => some cause.message
  | _ => none

/-- The characters with every line after the first indented. -/
def indent (cs : List Char) : List Char :=
  cs.flatMap fun c => if c = '\n' then '\n' :: List.replicate 4 ' ' else [c]

/-- The report of a failure and its cause. -/
def report (failure : Failure) : String :=
  "Error: " ++ failure.message ++
    (match failure.cause? with
    | some cause => "\n\nCaused by:\n    " ++ String.ofList (indent cause.toList)
    | none => "") ++ "\n"

end Failure

/-! ## Values -/

/-- Reads an instant with a `T` or white space before the time of day, or a date. -/
def readInstant? (cs : List Char) : Option Calendar.DateTime :=
  (Calendar.DateTime.ofChars? cs).orElse fun _ =>
    (spaced? cs).orElse fun _ => Calendar.DateTime.ofDateChars? cs
where
  /-- Reads an instant with white space before the time of day. -/
  spaced? (cs : List Char) : Option Calendar.DateTime := do
    let (date, cs) ← Calendar.readDate? cs
    let ((hour, minute, second), cs) ← Calendar.readClock? (Text.trimStart cs)
    let time ← Calendar.TimeOfDay.ofParts? hour minute second 0
    if cs.isEmpty then return ⟨date, time⟩ else none

/-- The value that characters stand for: nothing, a Boolean, a number, a date, or else the text
that they are. White space around them counts only in a text. -/
def readValue (raw : List Char) : Value :=
  let cs := Text.trimChars raw
  let text := String.ofList cs
  if cs.isEmpty then .null
  else if Text.sameIgnoringCase text "true" then .boolean true
  else if Text.sameIgnoringCase text "false" then .boolean false
  else
    match Decimal.ofChars? cs, readInstant? cs with
    | some n, _ => .number n
    | none, some date => .date date
    | none, none => .text (String.ofList raw)

/-- Reads the time on the clock. -/
def readNow (text : String) : Except Failure Calendar.DateTime :=
  match readInstant? (Text.trimChars text.toList) with
  | some now => .ok now
  | none => .error (.invalidNow text)

/-! ## Specifications -/

/-- The characters before and after the first `mark`. -/
def splitAt? (mark : Char) (cs : List Char) : Option (List Char × List Char) :=
  match cs.dropWhile (· != mark) with
  | [] => none
  | _ :: after => some (cs.takeWhile (· != mark), after)

/-- The pieces between commas. -/
def pieces : List Char → List (List Char)
  | [] => [[]]
  | c :: cs =>
    if c = ',' then [] :: pieces cs
    else
      match pieces cs with
      | [] => [[c]]
      | piece :: rest => (c :: piece) :: rest

/-- Reads the value of a field, `NAME=VALUE`. -/
def readAssignment (spec : String) : Except Failure (String × Value) :=
  match splitAt? '=' spec.toList with
  | none => .error (.noAssignment spec)
  | some (name, raw) =>
    let name := Text.trimChars name
    if name.isEmpty then .error (.noFieldName spec)
    else .ok (String.ofList name, readValue raw)

/-- A link and fields of the table that it leads to. -/
structure LinkSpec where
  link : String
  fields : List String
deriving DecidableEq, Repr

/-- Reads the fields of a link, `LINK=FIELD,...`. -/
def LinkSpec.read (spec : String) : Except Failure LinkSpec :=
  match splitAt? '=' spec.toList with
  | none => .error (.noLinkFields spec)
  | some (link, fields) =>
    let link := Text.trimChars link
    let fields := ((pieces fields).map Text.trimChars).filter (!·.isEmpty)
    if link.isEmpty || fields.isEmpty then .error (.noLinkFields spec)
    else .ok ⟨String.ofList link, fields.map String.ofList⟩

/-- The values of a field behind a link. -/
structure LookupSpec where
  link : String
  field : String
  values : List Value
deriving DecidableEq

/-- Reads the values of a field behind a link, `LINK.FIELD=V,...`. -/
def LookupSpec.read (spec : String) : Except Failure LookupSpec :=
  match splitAt? '=' spec.toList with
  | none => .error (.noLookup spec)
  | some (target, raw) =>
    match splitAt? '.' target with
    | none => .error (.noLookupTarget (String.ofList target))
    | some (link, field) =>
      let link := Text.trimChars link
      let field := Text.trimChars field
      if link.isEmpty || field.isEmpty then .error (.noLookupTarget (String.ofList target))
      else
        .ok ⟨String.ofList link, String.ofList field,
          if raw.isEmpty then [] else (pieces raw).map readValue⟩

end ComputedFields.CommandLine
