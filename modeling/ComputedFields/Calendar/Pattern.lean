import ComputedFields.Calendar.Iso

/-! Patterns that lay out a date and time: a percent sign and a letter stand for a part of the
instant, and all other characters for themselves. `Pattern.ofChars?` reads a pattern and
`Pattern.apply` fills it in. -/

namespace ComputedFields.Calendar

/-- What fills a number up to its width. -/
inductive Padding where
  | none
  | zero
  | space
deriving DecidableEq, Repr

/-- A part of an instant that is written as a number. -/
inductive NumberPart where
  | year
  | century
  | yearOfCentury
  | weekYear
  | yearOfWeekCentury
  | quarter
  | month
  | day
  | ordinal
  | weekFromSunday
  | weekFromMonday
  | week
  | sinceSunday
  | weekday
  | hour
  | hour12
  | minute
  | second
  | nanosecond
  | timestamp
deriving DecidableEq, Repr

/-- A part of an instant that is written as a word. -/
inductive NamePart where
  | month
  | monthShort
  | weekday
  | weekdayShort
  | halfDay
  | halfDaySmall
deriving DecidableEq, Repr

/-- One part of a pattern. -/
inductive PatternPart where
  | literal (c : Char)
  | number (part : NumberPart) (padding : Padding)
  | name (part : NamePart)
  /-- The fraction in three, six or nine places after a point, or nothing. -/
  | shortestFraction
  /-- The fraction in a given number of places, with or without its point. -/
  | fraction (places : Nat) (point : Bool)
deriving DecidableEq, Repr

/-- A layout for instants. -/
abbrev Pattern := List PatternPart

/-! ## Filling in -/

def monthNames : List String :=
  ["January", "February", "March", "April", "May", "June", "July", "August", "September",
   "October", "November", "December"]

/-- The days of the week from Monday. -/
def weekdayNames : List String :=
  ["Monday", "Tuesday", "Wednesday", "Thursday", "Friday", "Saturday", "Sunday"]

namespace NumberPart

/-- The number, and the width that zeros or spaces fill it up to. -/
def value (d : DateTime) : NumberPart → Int × Nat
  | .year => (d.date.year, 4)
  | .century => (d.date.year / 100, 2)
  | .yearOfCentury => (d.date.year % 100, 2)
  | .weekYear => (d.date.weekYear, 4)
  | .yearOfWeekCentury => (d.date.weekYear % 100, 2)
  | .quarter => (((d.date.month - 1) / 3 + 1 : Nat), 1)
  | .month => (d.date.month, 2)
  | .day => (d.date.day, 2)
  | .ordinal => (d.date.ordinal, 3)
  | .weekFromSunday => (d.date.weekOfYear (Date.sinceSunday d.date.dayNumber), 2)
  | .weekFromMonday => (d.date.weekOfYear (Date.sinceMonday d.date.dayNumber), 2)
  | .week => (d.date.week, 2)
  | .sinceSunday => (Date.sinceSunday d.date.dayNumber, 1)
  | .weekday => ((Date.sinceMonday d.date.dayNumber + 1 : Nat), 1)
  | .hour => (d.time.hour, 2)
  | .hour12 => ((if d.time.hour % 12 = 0 then 12 else d.time.hour % 12 : Nat), 2)
  | .minute => (d.time.minute, 2)
  | .second => (d.time.second, 2)
  | .nanosecond => (d.time.fraction, 9)
  | .timestamp => (d.timestamp, 9)

/-- Years outside 0 to 9999 always have a sign, and one place more for it. -/
def alwaysSigned (part : NumberPart) (value : Int) : Bool :=
  match part with
  | .year | .weekYear => value < 0 || 9999 < value
  | _ => false

end NumberPart

/-- A number filled up to `width` characters, its sign included. Zeros go after the sign and
spaces before it. -/
def padNumber (padding : Padding) (width : Nat) (signed : Bool) (value : Int) : List Char :=
  let sign := if value < 0 then ['-'] else if signed then ['+'] else []
  let digits := Nat.toDigits 10 value.natAbs
  let missing := width - (sign.length + digits.length)
  match padding with
  | .none => sign ++ digits
  | .zero => sign ++ List.replicate missing '0' ++ digits
  | .space => List.replicate missing ' ' ++ sign ++ digits

namespace PatternPart

/-- The word for a part of an instant. -/
def nameOf (d : DateTime) : NamePart → String
  | .month => monthNames.getD (d.date.month - 1) ""
  | .monthShort => String.ofList ((monthNames.getD (d.date.month - 1) "").toList.take 3)
  | .weekday => weekdayNames.getD (Date.sinceMonday d.date.dayNumber) ""
  | .weekdayShort =>
    String.ofList ((weekdayNames.getD (Date.sinceMonday d.date.dayNumber) "").toList.take 3)
  | .halfDay => if d.time.hour < 12 then "AM" else "PM"
  | .halfDaySmall => if d.time.hour < 12 then "am" else "pm"

/-- The characters that a part stands for. -/
def apply (d : DateTime) : PatternPart → List Char
  | .literal c => [c]
  | .number part padding =>
    let (value, width) := part.value d
    let signed := part.alwaysSigned value
    padNumber padding (if signed then width + 1 else width) signed value
  | .name part => (nameOf d part).toList
  | .shortestFraction => fractionChars d.time.fraction
  | .fraction places point =>
    (if point then ['.'] else []) ++ Digits.fixed places (d.time.fraction / tenPow (9 - places))

end PatternPart

/-! ## Reading -/

namespace Pattern

/-- The letters that stand for one number, with the padding that it has by itself. -/
def numberLetter? : Char → Option (NumberPart × Padding)
  | 'Y' => some (.year, .zero)
  | 'C' => some (.century, .zero)
  | 'y' => some (.yearOfCentury, .zero)
  | 'G' => some (.weekYear, .zero)
  | 'g' => some (.yearOfWeekCentury, .zero)
  | 'q' => some (.quarter, .none)
  | 'm' => some (.month, .zero)
  | 'd' => some (.day, .zero)
  | 'e' => some (.day, .space)
  | 'j' => some (.ordinal, .zero)
  | 'U' => some (.weekFromSunday, .zero)
  | 'W' => some (.weekFromMonday, .zero)
  | 'V' => some (.week, .zero)
  | 'w' => some (.sinceSunday, .none)
  | 'u' => some (.weekday, .none)
  | 'H' => some (.hour, .zero)
  | 'k' => some (.hour, .space)
  | 'I' => some (.hour12, .zero)
  | 'l' => some (.hour12, .space)
  | 'M' => some (.minute, .zero)
  | 'S' => some (.second, .zero)
  | 'f' => some (.nanosecond, .zero)
  | 's' => some (.timestamp, .none)
  | _ => none

/-- The letters that stand for one word. -/
def nameLetter? : Char → Option NamePart
  | 'B' => some .month
  | 'b' | 'h' => some .monthShort
  | 'A' => some .weekday
  | 'a' => some .weekdayShort
  | 'p' => some .halfDay
  | 'P' => some .halfDaySmall
  | _ => none

/-- Month, day and year of the century with slashes between. -/
def slashDate : Pattern :=
  [.number .month .zero, .literal '/', .number .day .zero, .literal '/',
   .number .yearOfCentury .zero]

/-- Year, month and day with hyphens between. -/
def hyphenDate : Pattern :=
  [.number .year .zero, .literal '-', .number .month .zero, .literal '-', .number .day .zero]

/-- Hour and minute. -/
def hourMinute : Pattern := [.number .hour .zero, .literal ':', .number .minute .zero]

/-- Hour, minute and second. -/
def clock : Pattern := hourMinute ++ [.literal ':', .number .second .zero]

/-- The letters that stand for several parts. -/
def compositeLetter? : Char → Option Pattern
  | 'D' | 'x' => some slashDate
  | 'F' => some hyphenDate
  | 'v' =>
    some [.number .day .space, .literal '-', .name .monthShort, .literal '-', .number .year .zero]
  | 'R' => some hourMinute
  | 'T' | 'X' => some clock
  | 'r' =>
    some ([.number .hour12 .zero, .literal ':', .number .minute .zero, .literal ':',
      .number .second .zero, .literal ' ', .name .halfDay])
  | 'c' =>
    some ([.name .weekdayShort, .literal ' ', .name .monthShort, .literal ' ',
      .number .day .space, .literal ' '] ++ clock ++ [.literal ' ', .number .year .zero])
  | 't' => some [.literal '\t']
  | 'n' => some [.literal '\n']
  | '%' => some [.literal '%']
  | _ => none

/-- The padding that a flag asks for. -/
def flag? : Char → Option Padding
  | '-' => some .none
  | '_' => some .space
  | '0' => some .zero
  | _ => none

/-- The places that a digit before `f` asks for. -/
def places? : Char → Option Nat
  | '3' => some 3
  | '6' => some 6
  | '9' => some 9
  | _ => none

/-- Reads a pattern. There is none where a percent sign has no letter, or one without a meaning
for an instant without a time zone. A flag goes with a single number only. -/
def ofChars? : List Char → Option Pattern
  | [] => some []
  | '%' :: '.' :: 'f' :: cs => (ofChars? cs).map (.shortestFraction :: ·)
  | '%' :: '.' :: p :: 'f' :: cs => do
    let places ← places? p
    let rest ← ofChars? cs
    return .fraction places true :: rest
  | '%' :: a :: b :: cs =>
    match flag? a, places? a with
    | some padding, _ => do
      let (part, _) ← numberLetter? b
      let rest ← ofChars? cs
      return .number part padding :: rest
    | none, some places => do
      let rest ← ofChars? cs
      if b = 'f' then return .fraction places false :: rest else none
    | none, none => do
      let parts ← letter? a
      let rest ← ofChars? (b :: cs)
      return parts ++ rest
  | ['%', a] => letter? a
  | ['%'] => none
  | c :: cs => (ofChars? cs).map (.literal c :: ·)
where
  /-- The parts that a letter by itself stands for. -/
  letter? (a : Char) : Option Pattern :=
    match numberLetter? a, nameLetter? a with
    | some (part, padding), _ => some [.number part padding]
    | none, some part => some [.name part]
    | none, none => compositeLetter? a

/-- The characters of an instant laid out by a pattern. -/
def apply (pattern : Pattern) (d : DateTime) : List Char := pattern.flatMap (·.apply d)

end Pattern

/-- The instant laid out by the pattern that a text describes. -/
def DateTime.format? (d : DateTime) (pattern : String) : Option String :=
  (Pattern.ofChars? pattern.toList).map fun parts => String.ofList (Pattern.apply parts d)

end ComputedFields.Calendar
