import ComputedFields.Json
import ComputedFields.Value.Basic

/-! The stored form of values: an object with the type under `type` and the content under
`value`. Numbers are texts, so that they keep their digits, dates keep their fraction of a
second, and a span of time is a whole number of milliseconds. -/

namespace ComputedFields.Value

/-- An object with a type and a content. -/
def tagged (type : String) (content : Json) : Json :=
  .object [("type", .text type), ("value", content)]

mutual

/-- The stored form of a value. -/
def toJson : Value → Json
  | .null => .object [("type", .text "null")]
  | .boolean value => tagged "boolean" (.boolean value)
  | .number value => tagged "number" (.text value.toText)
  | .text value => tagged "text" (.text value)
  | .date value => tagged "date" (.text value.toExactText)
  | .duration value => tagged "duration" (.number value.millis)
  | .list items => tagged "list" (.array (toJsonAll items))
  | .error kind => tagged "error" (.text kind.name)

/-- The stored forms of the items of a list. -/
def toJsonAll : List Value → List Json
  | [] => []
  | value :: values => toJson value :: toJsonAll values

end

mutual

/-- Reads the stored form of a value. -/
def ofJson? : Json → Option Value
  | .object [("type", .text type)] => if type = "null" then some .null else none
  | .object [("type", .text type), ("value", content)] => ofContent? type content
  | .object [("value", content), ("type", .text type)] => ofContent? type content
  | _ => none

/-- Reads the content of a value of a given type. -/
def ofContent? (type : String) : Json → Option Value
  | .null => if type = "null" then some .null else none
  | .boolean value => if type = "boolean" then some (.boolean value) else none
  | .text s =>
    if type = "number" then (Decimal.ofText? s).map .number
    else if type = "text" then some (.text s)
    else if type = "date" then (Calendar.DateTime.ofExactText? s).map .date
    else if type = "error" then (ErrorKind.ofName? s).map .error
    else none
  | .number millis =>
    if type = "duration" then (Calendar.Duration.ofMillis? millis).map .duration else none
  | .array items => if type = "list" then (ofJsonAll? items).map .list else none
  | _ => none

/-- Reads the items of a list. -/
def ofJsonAll? : List Json → Option (List Value)
  | [] => some []
  | item :: items => do
    let value ← ofJson? item
    let values ← ofJsonAll? items
    return value :: values

end

end ComputedFields.Value
