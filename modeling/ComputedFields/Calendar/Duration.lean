/-! Signed spans of time, in nanoseconds. A span holds at most `2 ^ 63 - 1` milliseconds either
way. -/

namespace ComputedFields.Calendar

/-- The nanoseconds of the longest span. -/
def Duration.limit : Int := 9223372036854775807000000

/-- A signed span of time. -/
structure Duration where
  nanos : Int
  ge : -Duration.limit ≤ nanos
  le : nanos ≤ Duration.limit
deriving DecidableEq

namespace Duration

/-- The span of this many nanoseconds. -/
def ofNanos? (nanos : Int) : Option Duration :=
  if h : -limit ≤ nanos ∧ nanos ≤ limit then some ⟨nanos, h.1, h.2⟩ else none

/-- The span of this many milliseconds. -/
def ofMillis? (millis : Int) : Option Duration := ofNanos? (millis * 1000000)

/-- The whole milliseconds of a span, toward zero. -/
def millis (d : Duration) : Int := d.nanos.tdiv 1000000

/-- The span in the other direction. -/
def neg (d : Duration) : Duration :=
  ⟨-d.nanos, by have := d.le; omega, by have := d.ge; omega⟩

/-- The sum of two spans. -/
def add? (a b : Duration) : Option Duration := ofNanos? (a.nanos + b.nanos)

/-- The difference of two spans. -/
def sub? (a b : Duration) : Option Duration := ofNanos? (a.nanos - b.nanos)

/-- The order of spans. -/
def compare (a b : Duration) : Ordering := Ord.compare a.nanos b.nanos

/-! ## The written form -/

/-- The digits of a fraction of a second, three places without the zeros that end it. -/
def fractionDigits (millis : Nat) : List Char :=
  let digits := List.replicate (3 - (Nat.toDigits 10 millis).length) '0' ++ Nat.toDigits 10 millis
  (digits.reverse.dropWhile (· == '0')).reverse

/-- The hours, minutes and seconds of a number of milliseconds. Hours and minutes are left out
when zero, and the seconds when zero beside another part. -/
def parts (millis : Nat) : List Char :=
  let hours := millis / 3600000
  let minutes := millis / 60000 % 60
  let seconds := millis / 1000 % 60
  let fraction := millis % 1000
  (if hours = 0 then [] else Nat.toDigits 10 hours ++ ['H']) ++
    (if minutes = 0 then [] else Nat.toDigits 10 minutes ++ ['M']) ++
    (if fraction ≠ 0 then
      Nat.toDigits 10 seconds ++ ['.'] ++ fractionDigits fraction ++ ['S']
    else if seconds ≠ 0 || (hours = 0 && minutes = 0) then Nat.toDigits 10 seconds ++ ['S']
    else [])

/-- The ISO 8601 form of a span in whole milliseconds: `PT1H30M`, `-PT0.5S`, `PT0S`. -/
def toText (d : Duration) : String :=
  String.ofList ((if d.millis < 0 then ['-'] else []) ++ ['P', 'T'] ++ parts d.millis.natAbs)

end Duration

end ComputedFields.Calendar
