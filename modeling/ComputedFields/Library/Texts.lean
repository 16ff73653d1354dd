import ComputedFields.Library.Function
import ComputedFields.Text.LetterCase
import ComputedFields.Text.Search

/-! Text functions. Positions count characters from 1, and counts past the end of a text reach to
its end. -/

namespace ComputedFields.Library

open Value (ofInt)

/-! ## Slices -/

/-- The first `n` characters. -/
def takeLeft (s : String) (n : Nat) : String := String.ofList (s.toList.take n)

/-- The last `n` characters. -/
def takeRight (s : String) (n : Nat) : String :=
  String.ofList (s.toList.drop (s.toList.length - n))

/-- `n` characters from a position on. -/
def takeMid (s : String) (start n : Nat) : String :=
  String.ofList ((s.toList.drop (start - 1)).take n)

/-- The text with `n` characters from a position on replaced. -/
def replaceSlice (s : String) (start n : Nat) (replacement : String) : String :=
  String.ofList (s.toList.take (start - 1) ++ replacement.toList ++ s.toList.drop (start - 1 + n))

/-- The argument as a position, which is never zero. -/
def toPosition (value : Value) : Except ErrorKind Nat :=
  value.toCount.bind fun n => if n = 0 then .error .invalidArgument else .ok n

/-- The count in an optional argument, one where there is none. -/
def countOrOne : List Value → Except ErrorKind Nat
  | [] => .ok 1
  | a :: _ => a.toCount

def left : List Value → Except ErrorKind Value
  | a :: rest => do
    let s ← a.asText
    let n ← countOrOne rest
    return .text (takeLeft s n)
  | _ => .error .arityMismatch

def right : List Value → Except ErrorKind Value
  | a :: rest => do
    let s ← a.asText
    let n ← countOrOne rest
    return .text (takeRight s n)
  | _ => .error .arityMismatch

def mid : List Value → Except ErrorKind Value
  | [a, b, c] => do
    let s ← a.asText
    let start ← toPosition b
    let n ← c.toCount
    return .text (takeMid s start n)
  | _ => .error .arityMismatch

def replace : List Value → Except ErrorKind Value
  | [a, b, c, d] => do
    let s ← a.asText
    let start ← toPosition b
    let n ← c.toCount
    let replacement ← d.asText
    return .text (replaceSlice s start n replacement)
  | _ => .error .arityMismatch

/-! ## Whole texts -/

/-- The texts of the arguments, one after the other. -/
def concatenate (args : List Value) : Except ErrorKind Value := do
  let parts ← args.mapM Value.asText
  return .text (String.join parts)

def upper : List Value → Except ErrorKind Value
  | [a] => a.asText.map fun s => .text (Text.toUpper s)
  | _ => .error .arityMismatch

def lower : List Value → Except ErrorKind Value
  | [a] => a.asText.map fun s => .text (Text.toLower s)
  | _ => .error .arityMismatch

def len : List Value → Except ErrorKind Value
  | [a] => a.asText.map fun s => ofInt s.toList.length
  | _ => .error .arityMismatch

/-- The words of a text with single spaces between. -/
def trimText (s : String) : String :=
  String.ofList (Text.collapse false (Text.trimChars s.toList))

def trim : List Value → Except ErrorKind Value
  | [a] => a.asText.map fun s => .text (trimText s)
  | _ => .error .arityMismatch

def value : List Value → Except ErrorKind Value
  | [.number n] => .ok (.number n)
  | [a] => do
    let s ← a.asText
    match Value.parseNumber? s with
    | some n => return .number n
    | none => .error .typeMismatch
  | _ => .error .arityMismatch

/-- The texts of the items that are not blank, with a separator between. -/
def join (item : Value) (separator : String) : Except ErrorKind Value := do
  let parts ← ((Value.flatten [item]).filter fun v => !v.isBlank).mapM Value.asText
  return .text (String.intercalate separator parts)

def arrayJoin : List Value → Except ErrorKind Value
  | [a] => join a ", "
  | [a, b] => do
    let separator ← b.asText
    join a separator
  | _ => .error .arityMismatch

/-! ## Search -/

/-- The first position from `start` on at which `needle` occurs, or zero. -/
def findFrom (needle haystack : String) (start : Nat) : Nat :=
  if haystack.toList.length < start - 1 then 0
  else
    match Text.position? needle.toList (haystack.toList.drop (start - 1)) with
    | some offset => start + offset
    | none => 0

/-- The position in an optional argument, one where there is none. -/
def positionOrOne : List Value → Except ErrorKind Nat
  | [] => .ok 1
  | a :: _ => toPosition a

def find : List Value → Except ErrorKind Value
  | a :: b :: rest => do
    let needle ← a.asText
    let haystack ← b.asText
    let start ← positionOrOne rest
    return ofInt (findFrom needle haystack start)
  | _ => .error .arityMismatch

/-- The text with every occurrence of `old` replaced, or only the one with a number. An empty
`old` does not occur. -/
def substituteText (s old new : String) (occurrence : Option Nat) : String :=
  if old.isEmpty then s
  else
    match occurrence with
    | none => String.ofList (Text.replaceAll old.toList new.toList 0 s.toList)
    | some n => String.ofList (Text.replaceNth old.toList new.toList (n - 1) 0 s.toList)

def substitute : List Value → Except ErrorKind Value
  | a :: b :: c :: rest => do
    let s ← a.asText
    let old ← b.asText
    let new ← c.asText
    match rest with
    | [] => return .text (substituteText s old new none)
    | d :: _ =>
      if old.isEmpty then return .text s
      else do
        let n ← toPosition d
        return .text (substituteText s old new (some n))
  | _ => .error .arityMismatch

end ComputedFields.Library
