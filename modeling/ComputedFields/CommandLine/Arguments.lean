import ComputedFields.Formula.Parser

/-! The arguments of the command line. Options come before or after the operands, as `--name
value`, `--name=value`, `-n value` or `-nvalue`; after `--` all is operands. The options of all
commands may also come before the command. Arguments that say nothing else are misused, and for
those there is no invocation. -/

namespace ComputedFields.CommandLine

/-! ## What is asked for -/

/-- A command with all that it works on, as it was written. -/
inductive Command where
  /-- Shows what a formula reads. -/
  | check (formula : String) (fields links : List String)
  /-- Evaluates a formula on one record. -/
  | eval (formula : String) (values lookups : List String) (now : Option String) (json : Bool)
  /-- Lists the function library. -/
  | functions
deriving DecidableEq, Repr

/-- A command and the bounds on its formula. -/
structure Invocation where
  limits : Limits
  command : Command
deriving DecidableEq, Repr

/-! ## Options -/

/-- What an option sets. -/
inductive Setting where
  | maxDepth
  | maxNodes
  | verbose
  | field
  | link
  | value
  | lookup
  | now
  | json
deriving DecidableEq, Repr

/-- An option as it is written. -/
structure OptionSpec where
  setting : Setting
  long : String
  short : Option Char := none
  takesValue : Bool := true

/-- The options of all commands. -/
def commonOptions : List OptionSpec :=
  [ { setting := .maxDepth, long := "max-depth" },
    { setting := .maxNodes, long := "max-nodes" },
    { setting := .verbose, long := "verbose", short := some 'v', takesValue := false } ]

/-- The commands. -/
inductive CommandName where
  | check
  | eval
  | functions
deriving DecidableEq, Repr

namespace CommandName

/-- The command with a name. -/
def ofText? : String → Option CommandName
  | "parse" => some .check
  | "check" => some .check
  | "eval" => some .eval
  | "functions" => some .functions
  | _ => none

/-- The options of a command. Of two that share a letter the first has it. -/
def options : CommandName → List OptionSpec
  | .check =>
    [ { setting := .field, long := "field", short := some 'f' },
      { setting := .link, long := "link", short := some 'l' } ] ++ commonOptions
  | .eval =>
    [ { setting := .value, long := "set", short := some 'v' },
      { setting := .lookup, long := "lookup", short := some 'l' },
      { setting := .now, long := "now" },
      { setting := .json, long := "json", takesValue := false } ] ++ commonOptions
  | .functions => commonOptions

end CommandName

/-! ## Reading -/

/-- An option that was given, with its value, empty where it takes none. -/
abbrev Given := Setting × String

/-- What one argument is. -/
inductive Argument where
  | operand
  /-- Options that need nothing more. -/
  | given (options : List Given)
  /-- Options of which the last has its value in the next argument. -/
  | awaiting (options : List Given) (last : Setting)

/-- An option letter and what follows it in the same argument: letters of further options, or
the value of the option, with or without a `=` before it. -/
def readLetters (options : List OptionSpec) : List Char → Option Argument
  | [] => some (.given [])
  | c :: cs => do
    let option ← options.find? (·.short = some c)
    if option.takesValue then
      match cs with
      | [] => return .awaiting [] option.setting
      | '=' :: value => return .given [(option.setting, String.ofList value)]
      | value => return .given [(option.setting, String.ofList value)]
    else
      match ← readLetters options cs with
      | .given more => return .given ((option.setting, "") :: more)
      | .awaiting more last => return .awaiting ((option.setting, "") :: more) last
      | .operand => none

/-- An option name, and its value after a `=`. -/
def readName (options : List OptionSpec) (cs : List Char) : Option Argument := do
  let name := cs.takeWhile (· != '=')
  let option ← options.find? (·.long.toList = name)
  match cs.dropWhile (· != '='), option.takesValue with
  | [], true => return .awaiting [] option.setting
  | [], false => return .given [(option.setting, "")]
  | _ :: value, true => return .given [(option.setting, String.ofList value)]
  | _ :: _, false => none

/-- What an argument is, none for an unknown option. A `-` alone is an operand. -/
def classify (options : List OptionSpec) (arg : String) : Option Argument :=
  match arg.toList with
  | '-' :: '-' :: name => readName options name
  | ['-'] => some .operand
  | '-' :: letters => readLetters options letters
  | _ => some .operand

/-- Whether an argument may be the value of the option before it. -/
def isValue (arg : String) : Bool :=
  match arg.toList with
  | '-' :: _ :: _ => false
  | _ => true

/-- The options among the arguments and the operands. With `leading`, only the options before the
first operand are read, and all from that operand on is left as it is. -/
def readArguments (options : List OptionSpec) (leading : Bool) :
    List String → Option (List Given × List String)
  | [] => some ([], [])
  | arg :: rest =>
    if arg == "--" then if leading then none else some ([], rest)
    else
      match classify options arg, rest with
      | some .operand, rest =>
        if leading then some ([], arg :: rest)
        else (readArguments options leading rest).map fun (given, operands) =>
          (given, arg :: operands)
      | some (.given here), rest =>
        (readArguments options leading rest).map fun (given, operands) =>
          (here ++ given, operands)
      | some (.awaiting here last), value :: rest =>
        if isValue value then
          (readArguments options leading rest).map fun (given, operands) =>
            (here ++ (last, value) :: given, operands)
        else none
      | _, _ => none

/-- The values of an option, in the order in which they were given. -/
def valuesOf (setting : Setting) (given : List Given) : List String :=
  (given.filter (·.1 = setting)).map (·.2)

/-- The value of an option that may be given once. -/
def valueOf? (setting : Setting) (given : List Given) : Option (Option String) :=
  match valuesOf setting given with
  | [] => some none
  | [value] => some (some value)
  | _ => none

/-- A bound: digits, with at most a `+` before them, of a number below `2 ^ 64`. -/
def readBound? (text : String) : Option Nat :=
  let digits := if text.toList.head? == some '+' then text.toList.tail else text.toList
  if !digits.isEmpty && digits.all Char.isDigit && Digits.value digits < 18446744073709551616 then
    some (Digits.value digits)
  else none

/-- The bound that an option sets, if it is given. -/
def boundOf? (setting : Setting) (given : List Given) : Option (Option Nat) := do
  match ← valueOf? setting given with
  | none => return none
  | some text =>
    let bound ← readBound? text
    return some bound

/-- A bound set before the command or after it; the latter wins. -/
def boundOr? (setting : Setting) (before after : List Given) (default : Nat) : Option Nat := do
  let outer ← boundOf? setting before
  let inner ← boundOf? setting after
  return (inner.or outer).getD default

/-- The command that a name, options and operands describe. -/
def command? (given : List Given) : CommandName → List String → Option Command
  | .check, [formula] =>
    return .check formula (valuesOf .field given) (valuesOf .link given)
  | .eval, [formula] => do
    let now ← valueOf? .now given
    let json ← valueOf? .json given
    return .eval formula (valuesOf .value given) (valuesOf .lookup given) now json.isSome
  | .functions, [] => some .functions
  | _, _ => none

/-- What the arguments ask for. -/
def Invocation.ofArguments? (args : List String) : Option Invocation := do
  let (before, rest) ← readArguments commonOptions true args
  match rest with
  | [] => none
  | name :: rest =>
    let name ← CommandName.ofText? name
    let (after, operands) ← readArguments name.options false rest
    let defaults : Limits := {}
    let maxDepth ← boundOr? .maxDepth before after defaults.maxDepth
    let maxNodes ← boundOr? .maxNodes before after defaults.maxNodes
    let command ← command? after name operands
    return ⟨⟨maxDepth, maxNodes⟩, command⟩

end ComputedFields.CommandLine
