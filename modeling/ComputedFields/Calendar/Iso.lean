import ComputedFields.Calendar.DateTime
import ComputedFields.Decimal.Power
import ComputedFields.Text.Blank
import ComputedFields.Text.Digits

/-! The ISO 8601 form of an instant, `2024-03-15T09:30:00`. `toText` drops a fraction of a
second and `toExactText` keeps it. Reading is more generous than writing: parts may have fewer
digits and white space before them, and a date alone means the start of the day. -/

namespace ComputedFields.Calendar

/-! ## Writing -/

/-- Four digits for the years 0 to 9999; a sign and at least four digits for the others. -/
def yearChars (year : Int) : List Char :=
  if 0 ≤ year && year ≤ 9999 then Digits.padded '0' 4 year.toNat
  else (if year < 0 then '-' else '+') :: Digits.padded '0' 4 year.natAbs

/-- Year, month and day with hyphens between. -/
def Date.toChars (d : Date) : List Char :=
  yearChars d.year ++ ['-'] ++ Digits.padded '0' 2 d.month ++ ['-'] ++ Digits.padded '0' 2 d.day

/-- Hour, minute and second with colons between. -/
def TimeOfDay.toChars (t : TimeOfDay) : List Char :=
  Digits.padded '0' 2 t.hour ++ [':'] ++ Digits.padded '0' 2 t.minute ++ [':'] ++
    Digits.padded '0' 2 t.second

/-- A fraction of a second in three, six or nine places, the fewest that are exact; nothing for
a whole second. -/
def fractionChars (nanos : Nat) : List Char :=
  if nanos = 0 then []
  else if nanos % 1000000 = 0 then '.' :: Digits.fixed 3 (nanos / 1000000)
  else if nanos % 1000 = 0 then '.' :: Digits.fixed 6 (nanos / 1000)
  else '.' :: Digits.fixed 9 nanos

namespace DateTime

/-- The form to the second. -/
def toChars (d : DateTime) : List Char := d.date.toChars ++ ['T'] ++ d.time.toChars

/-- The form to the second, which drops a fraction. -/
def toText (d : DateTime) : String := String.ofList d.toChars

/-- The form with the fraction. -/
def toExactText (d : DateTime) : String :=
  String.ofList (d.toChars ++ fractionChars d.time.fraction)

end DateTime

/-! ## Reading -/

/-- Reads a number of at most `limit` digits, with white space allowed before it. -/
def readNumber? (limit : Nat) (cs : List Char) : Option (Nat × List Char) :=
  let (digits, rest) := Digits.takeUpTo limit (Text.trimStart cs)
  if digits.isEmpty then none else some (Digits.value digits, rest)

/-- Reads a year: at most four digits, or a sign and any number of them. -/
def readYear? (cs : List Char) : Option (Int × List Char) :=
  match Text.trimStart cs with
  | '-' :: rest => (readSigned rest).map fun (year, after) => (-(year : Int), after)
  | '+' :: rest => (readSigned rest).map fun (year, after) => ((year : Int), after)
  | _ => (readNumber? 4 cs).map fun (year, after) => ((year : Int), after)
where
  /-- The digits after a sign follow it at once. -/
  readSigned (cs : List Char) : Option (Nat × List Char) :=
    let (digits, rest) := Digits.takeUpTo cs.length cs
    if digits.isEmpty then none else some (Digits.value digits, rest)

/-- Reads one given character. -/
def readChar? (c : Char) : List Char → Option (List Char)
  | d :: rest => if d = c then some rest else none
  | [] => none

/-- Reads a date from the start of a text. -/
def readDate? (cs : List Char) : Option (Date × List Char) := do
  let (year, cs) ← readYear? cs
  let cs ← readChar? '-' cs
  let (month, cs) ← readNumber? 2 cs
  let cs ← readChar? '-' cs
  let (day, cs) ← readNumber? 2 cs
  let date ← Date.ofParts? year month day
  return (date, cs)

/-- Reads hour, minute and second from the start of a text. -/
def readClock? (cs : List Char) : Option ((Nat × Nat × Nat) × List Char) := do
  let (hour, cs) ← readNumber? 2 cs
  let cs ← readChar? ':' cs
  let (minute, cs) ← readNumber? 2 cs
  let cs ← readChar? ':' cs
  let (second, cs) ← readNumber? 2 cs
  return ((hour, minute, second), cs)

/-- Reads the nanoseconds of a fraction: up to nine digits count, and more are passed over. -/
def readFraction? : List Char → Option (Nat × List Char)
  | '.' :: cs =>
    let (digits, rest) := Digits.takeUpTo 9 cs
    if digits.isEmpty then none
    else some (Digits.value digits * tenPow (9 - digits.length), rest.dropWhile Char.isDigit)
  | cs => some (0, cs)

namespace DateTime

/-- Reads an instant to the second, and nothing after it. -/
def ofChars? (cs : List Char) : Option DateTime := do
  let (date, cs) ← readDate? cs
  let cs ← readChar? 'T' cs
  let ((hour, minute, second), cs) ← readClock? cs
  let time ← TimeOfDay.ofParts? hour minute second 0
  if cs.isEmpty then return ⟨date, time⟩ else none

/-- Reads a date alone. -/
def ofDateChars? (cs : List Char) : Option DateTime := do
  let (date, cs) ← readDate? cs
  if cs.isEmpty then return .ofDate date else none

/-- Reads an instant or a date, with white space around it. -/
def ofText? (text : String) : Option DateTime :=
  let cs := Text.trimChars text.toList
  (ofChars? cs).orElse fun _ => ofDateChars? cs

/-- Reads the form with the fraction. -/
def ofExactText? (text : String) : Option DateTime := do
  let (date, cs) ← readDate? text.toList
  let cs ← readChar? 'T' cs
  let ((hour, minute, second), cs) ← readClock? cs
  let (nanos, cs) ← readFraction? cs
  let time ← TimeOfDay.ofParts? hour minute second nanos
  if cs.isEmpty then return ⟨date, time⟩ else none

end DateTime

end ComputedFields.Calendar
