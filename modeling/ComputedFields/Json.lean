import ComputedFields.Text.Digits

/-! JSON as far as stored values need it: numbers are whole, and objects keep their keys in
order. -/

namespace ComputedFields

/-- A JSON document. -/
inductive Json where
  | null
  | boolean (value : Bool)
  | number (value : Int)
  | text (value : String)
  | array (items : List Json)
  | object (members : List (String × Json))

namespace Json

instance : Inhabited Json := ⟨.null⟩

/-- One character inside a JSON string. -/
def escapeChar (c : Char) : List Char :=
  if c = '"' then ['\\', '"']
  else if c = '\\' then ['\\', '\\']
  else if c = '\n' then ['\\', 'n']
  else if c = '\r' then ['\\', 'r']
  else if c = '\t' then ['\\', 't']
  else if c = '\x08' then ['\\', 'b']
  else if c = '\x0c' then ['\\', 'f']
  else if c.toNat < 32 then
    ['\\', 'u', '0', '0'] ++ [Nat.digitChar (c.toNat / 16), Nat.digitChar (c.toNat % 16)]
  else [c]

/-- A JSON string. -/
def quoted (text : String) : String :=
  String.ofList (['"'] ++ text.toList.flatMap escapeChar ++ ['"'])

/-- A new line and two spaces for each level of nesting. -/
def newLine (depth : Nat) : String := String.ofList ('\n' :: List.replicate (2 * depth) ' ')

mutual

/-- The document with each item and member on a line of its own, below `depth` others. -/
def pretty (depth : Nat) : Json → String
  | .null => "null"
  | .boolean value => if value then "true" else "false"
  | .number value => toString value
  | .text value => quoted value
  | .array [] => "[]"
  | .array (item :: items) =>
    "[" ++ newLine (depth + 1) ++ prettyItems (depth + 1) (item :: items) ++ newLine depth ++ "]"
  | .object [] => "\x7b\x7d"
  | .object (member :: members) =>
    "\x7b" ++ newLine (depth + 1) ++ prettyMembers (depth + 1) (member :: members) ++
      newLine depth ++ "\x7d"

/-- The items of an array, each but the first after a comma and a new line. -/
def prettyItems (depth : Nat) : List Json → String
  | [] => ""
  | [item] => pretty depth item
  | item :: next :: rest =>
    pretty depth item ++ "," ++ newLine depth ++ prettyItems depth (next :: rest)

/-- The members of an object, each but the first after a comma and a new line. -/
def prettyMembers (depth : Nat) : List (String × Json) → String
  | [] => ""
  | [(key, value)] => quoted key ++ ": " ++ pretty depth value
  | (key, value) :: next :: rest =>
    quoted key ++ ": " ++ pretty depth value ++ "," ++ newLine depth ++
      prettyMembers depth (next :: rest)

end

end Json

end ComputedFields
