import ComputedFields.Library.Dates
import ComputedFields.Library.Logic
import ComputedFields.Library.Numbers
import ComputedFields.Library.Texts

/-! The functions that formulas may call. The catalog is closed: a later version may add
functions and changes none. -/

namespace ComputedFields.Library

/-- The version of the catalog. -/
def version : Nat := 1

/-- All functions, in the order of their names. -/
def functions : List Function :=
  [ { name := "ABS", minArgs := 1, maxArgs := some 1, params := [.number],
      run := fun _ => absolute },
    { name := "AND", minArgs := 1, maxArgs := none, params := [.boolean],
      run := fun _ => conjunction },
    { name := "ARRAYJOIN", minArgs := 1, maxArgs := some 2, params := [.list, .text],
      run := fun _ => arrayJoin },
    { name := "AVERAGE", minArgs := 1, maxArgs := none, params := [.number],
      run := fun _ => average },
    { name := "BLANK", minArgs := 0, maxArgs := some 0, params := [],
      run := fun _ _ => .ok .null },
    { name := "CONCATENATE", minArgs := 1, maxArgs := none, params := [.any],
      run := fun _ => concatenate },
    { name := "COUNT", minArgs := 1, maxArgs := none, params := [.any],
      run := fun _ => count },
    { name := "DATE_ADD", minArgs := 2, maxArgs := some 3, params := [.date, .any, .text],
      run := fun _ => dateAdd },
    { name := "DATE_DIFF", minArgs := 2, maxArgs := some 3, params := [.date, .date, .text],
      run := fun _ => dateDiff },
    { name := "DAY", minArgs := 1, maxArgs := some 1, params := [.date],
      run := fun _ => day },
    { name := "FALSE", minArgs := 0, maxArgs := some 0, params := [],
      run := fun _ _ => .ok (.boolean false) },
    { name := "FIND", minArgs := 2, maxArgs := some 3, params := [.text, .text, .integer],
      run := fun _ => find },
    { name := "FORMAT_DATE", minArgs := 1, maxArgs := some 2, params := [.date, .text],
      run := fun _ => formatDate },
    { name := "IF", minArgs := 2, maxArgs := some 3, params := [.boolean, .any, .any],
      run := fun _ => conditional },
    { name := "IFERROR", minArgs := 2, maxArgs := some 2, params := [.any, .any],
      errors := .absorb, run := fun _ => ifError },
    { name := "INT", minArgs := 1, maxArgs := some 1, params := [.number],
      run := fun _ => int },
    { name := "ISBLANK", minArgs := 1, maxArgs := some 1, params := [.any],
      errors := .absorb, run := fun _ => isBlank },
    { name := "ISERROR", minArgs := 1, maxArgs := some 1, params := [.any],
      errors := .absorb, run := fun _ => isError },
    { name := "LEFT", minArgs := 1, maxArgs := some 2, params := [.text, .integer],
      run := fun _ => left },
    { name := "LEN", minArgs := 1, maxArgs := some 1, params := [.text],
      run := fun _ => len },
    { name := "LOWER", minArgs := 1, maxArgs := some 1, params := [.text],
      run := fun _ => lower },
    { name := "MAX", minArgs := 1, maxArgs := none, params := [.number],
      run := fun _ => maximum },
    { name := "MID", minArgs := 3, maxArgs := some 3, params := [.text, .integer, .integer],
      run := fun _ => mid },
    { name := "MIN", minArgs := 1, maxArgs := none, params := [.number],
      run := fun _ => minimum },
    { name := "MOD", minArgs := 2, maxArgs := some 2, params := [.number, .number],
      run := fun _ => mod },
    { name := "MONTH", minArgs := 1, maxArgs := some 1, params := [.date],
      run := fun _ => month },
    { name := "NOT", minArgs := 1, maxArgs := some 1, params := [.boolean],
      run := fun _ => negation },
    { name := "NOW", minArgs := 0, maxArgs := some 0, params := [], volatile := true,
      run := fun now _ => .ok (.date now) },
    { name := "OR", minArgs := 1, maxArgs := none, params := [.boolean],
      run := fun _ => disjunction },
    { name := "REPLACE", minArgs := 4, maxArgs := some 4,
      params := [.text, .integer, .integer, .text], run := fun _ => replace },
    { name := "RIGHT", minArgs := 1, maxArgs := some 2, params := [.text, .integer],
      run := fun _ => right },
    { name := "ROUND", minArgs := 1, maxArgs := some 2, params := [.number, .integer],
      run := fun _ => round },
    { name := "SUBSTITUTE", minArgs := 3, maxArgs := some 4,
      params := [.text, .text, .text, .integer], run := fun _ => substitute },
    { name := "SUM", minArgs := 1, maxArgs := none, params := [.number],
      run := fun _ => sum },
    { name := "TODAY", minArgs := 0, maxArgs := some 0, params := [], volatile := true,
      run := fun now _ => .ok (.date (.ofDate now.date)) },
    { name := "TRIM", minArgs := 1, maxArgs := some 1, params := [.text],
      run := fun _ => trim },
    { name := "TRUE", minArgs := 0, maxArgs := some 0, params := [],
      run := fun _ _ => .ok (.boolean true) },
    { name := "UPPER", minArgs := 1, maxArgs := some 1, params := [.text],
      run := fun _ => upper },
    { name := "VALUE", minArgs := 1, maxArgs := some 1, params := [.text],
      run := fun _ => value },
    { name := "YEAR", minArgs := 1, maxArgs := some 1, params := [.date],
      run := fun _ => year } ]

/-- The function with a name, in any ASCII case. -/
def find? (name : String) : Option Function :=
  functions.find? fun f => f.name == Text.asciiUpper name

/-- Whether a name is that of a function that reads the clock. -/
def isVolatile (name : String) : Bool := (find? name).any (·.volatile)

end ComputedFields.Library
