import ComputedFields.Calendar.Date
import ComputedFields.Calendar.Duration

/-! Dates with a time of day, to the nanosecond and without a time zone. A leap second is a
fraction from one second up to two, kept on the second before it. -/

namespace ComputedFields.Calendar

/-- The nanoseconds of a second. -/
def nanosPerSecond : Nat := 1000000000

/-- The seconds of a day. -/
def secondsPerDay : Nat := 86400

/-- A time of day. -/
structure TimeOfDay where
  seconds : Nat
  nanos : Nat
  seconds_lt : seconds < secondsPerDay
  nanos_lt : nanos < 2 * nanosPerSecond
deriving DecidableEq

namespace TimeOfDay

/-- The start of the day. -/
def midnight : TimeOfDay := ⟨0, 0, by decide, by decide⟩

/-- The time with these parts; second 60 is the leap second after 59. -/
def ofParts? (hour minute second nanos : Nat) : Option TimeOfDay :=
  let leap := if second = 60 then 1 else 0
  let seconds := hour * 3600 + minute * 60 + (second - leap)
  let fraction := leap * nanosPerSecond + nanos
  if h : hour < 24 ∧ minute < 60 ∧ second ≤ 60 ∧ nanos < nanosPerSecond ∧
      seconds < secondsPerDay ∧ fraction < 2 * nanosPerSecond then
    some ⟨seconds, fraction, h.2.2.2.2.1, h.2.2.2.2.2⟩
  else none

def hour (t : TimeOfDay) : Nat := t.seconds / 3600

def minute (t : TimeOfDay) : Nat := t.seconds / 60 % 60

/-- The second that a clock shows, 60 in a leap second. -/
def second (t : TimeOfDay) : Nat := t.seconds % 60 + t.nanos / nanosPerSecond

/-- The fraction of the second that a clock shows. -/
def fraction (t : TimeOfDay) : Nat := t.nanos % nanosPerSecond

/-- Whether the time lies in a leap second. -/
def isLeap (t : TimeOfDay) : Bool := nanosPerSecond ≤ t.nanos

/-- The order of times of day. -/
def compare (a b : TimeOfDay) : Ordering :=
  (Ord.compare a.seconds b.seconds).then (Ord.compare a.nanos b.nanos)

/-- The nanoseconds between two times of one day. A leap second between them counts. -/
def since (a b : TimeOfDay) : Int :=
  let leap : Int :=
    if b.seconds < a.seconds && b.isLeap then 1
    else if a.seconds < b.seconds && a.isLeap then -1
    else 0
  ((a.seconds : Int) - b.seconds + leap) * nanosPerSecond + ((a.nanos : Int) - b.nanos)

end TimeOfDay

/-- A date and a time of day. -/
structure DateTime where
  date : Date
  time : TimeOfDay
deriving DecidableEq

namespace DateTime

/-- The start of a date. -/
def ofDate (date : Date) : DateTime := ⟨date, .midnight⟩

/-- The order of instants. -/
def compare (a b : DateTime) : Ordering :=
  (a.date.compare b.date).then (a.time.compare b.time)

/-- The instant `nanos` nanoseconds after the start of a date. -/
def ofDayNanos? (dayNumber nanos : Int) : Option DateTime :=
  let perDay : Int := secondsPerDay * nanosPerSecond
  let within := (nanos % perDay).toNat
  (Date.ofDayNumber? (dayNumber + nanos / perDay)).bind fun date =>
    if h : within / nanosPerSecond < secondsPerDay ∧
        within % nanosPerSecond < 2 * nanosPerSecond then
      some ⟨date, within / nanosPerSecond, within % nanosPerSecond, h.1, h.2⟩
    else none

/-- The instant a span later. An instant in a leap second stays in it as long as the span is
shorter than a second and does not reach its end; otherwise the leap second is left as if the
instant lay in the second before it, or, backwards, in the second after it. -/
def add? (d : DateTime) (span : Duration) : Option DateTime :=
  let seconds := span.nanos.tdiv nanosPerSecond
  let rest := span.nanos.tmod nanosPerSecond
  let start : Int := d.time.seconds * nanosPerSecond + d.time.nanos
  if d.time.isLeap then
    if 0 < seconds || (0 < rest && 2 * (nanosPerSecond : Int) ≤ d.time.nanos + rest) then
      ofDayNanos? d.date.dayNumber (start - nanosPerSecond + span.nanos)
    else if seconds < 0 then ofDayNanos? d.date.dayNumber (start + span.nanos)
    else if h : (d.time.nanos + rest).toNat < 2 * nanosPerSecond then
      some ⟨d.date, d.time.seconds, (d.time.nanos + rest).toNat, d.time.seconds_lt, h⟩
    else none
  else ofDayNanos? d.date.dayNumber (start + span.nanos)

/-- The instant a span earlier. -/
def sub? (d : DateTime) (span : Duration) : Option DateTime := d.add? span.neg

/-- The nanoseconds from `b` to `a`. -/
def nanosSince (a b : DateTime) : Int :=
  (a.date.dayNumber - b.date.dayNumber) * (secondsPerDay * nanosPerSecond) + a.time.since b.time

theorem nanosSince_bounds (a b : DateTime) :
    -Duration.limit ≤ a.nanosSince b ∧ a.nanosSince b ≤ Duration.limit := by
  have ha := a.date.dayNumber_bounds
  have hb := b.date.dayNumber_bounds
  have h1 := a.time.seconds_lt
  have h2 := b.time.seconds_lt
  have h3 := a.time.nanos_lt
  have h4 := b.time.nanos_lt
  unfold nanosSince TimeOfDay.since
  simp only [secondsPerDay, nanosPerSecond, Duration.limit] at *
  constructor <;> (repeat' split) <;> omega

/-- The span from `b` to `a`. -/
def since (a b : DateTime) : Duration :=
  ⟨a.nanosSince b, (nanosSince_bounds a b).1, (nanosSince_bounds a b).2⟩

/-- The instant with its date moved by months. -/
def addMonths? (d : DateTime) (months : Int) : Option DateTime :=
  (d.date.addMonths? months).map fun date => { d with date }

/-- The day number of 1970-01-01. -/
def epochDay : Int := 719528

/-- The seconds from 1970-01-01 to the instant. -/
def timestamp (d : DateTime) : Int :=
  (d.date.dayNumber - epochDay) * secondsPerDay + d.time.seconds

end DateTime

end ComputedFields.Calendar
