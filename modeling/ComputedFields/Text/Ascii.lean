/-! Case of the ASCII letters alone, for the names that do not look beyond them: functions,
Booleans, units and error codes. -/

namespace ComputedFields.Text

/-- The text with the ASCII letters in upper case. -/
def asciiUpper (text : String) : String := String.ofList (text.toList.map Char.toUpper)

/-- The text with the ASCII letters in lower case. -/
def asciiLower (text : String) : String := String.ofList (text.toList.map Char.toLower)

/-- Whether two texts differ at most in the case of ASCII letters. -/
def sameIgnoringCase (a b : String) : Bool :=
  a.toList.map Char.toLower == b.toList.map Char.toLower

end ComputedFields.Text
