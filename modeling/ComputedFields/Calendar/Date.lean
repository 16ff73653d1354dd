/-! Dates of the Gregorian calendar, extended to the years -262143 to 262142. A date counts days
from 0000-01-01 by `Date.dayNumber`; `Date.ofDayNumber?` is its inverse. -/

namespace ComputedFields.Calendar

/-- Whether the year has a 29th of February. -/
def isLeap (year : Int) : Bool := year % 4 == 0 && (year % 100 != 0 || year % 400 == 0)

/-- The length of a month. -/
def daysInMonth (leap : Bool) : Nat → Nat
  | 2 => if leap then 29 else 28
  | 4 | 6 | 9 | 11 => 30
  | _ => 31

/-- The days of a year before the first of a month. -/
def daysBefore (leap : Bool) : Nat → Nat
  | 0 | 1 => 0
  | month + 2 => daysBefore leap (month + 1) + daysInMonth leap (month + 1)

/-- The days from 0000-01-01 to the first day of a year: 365 a year and one for each leap year
between. -/
def yearStart (year : Int) : Int :=
  365 * year + (year + 3) / 4 - (year + 99) / 100 + (year + 399) / 400

/-- The first year that a date may have. -/
def firstYear : Int := -262143

/-- The last year that a date may have. -/
def lastYear : Int := 262142

/-- A day of the calendar. -/
structure Date where
  year : Int
  month : Nat
  day : Nat
  year_ge : firstYear ≤ year
  year_le : year ≤ lastYear
  month_pos : 1 ≤ month
  month_le : month ≤ 12
  day_pos : 1 ≤ day
  day_le : day ≤ daysInMonth (isLeap year) month
deriving DecidableEq

namespace Date

/-- The date with this year, month and day, when the calendar has it. -/
def ofParts? (year : Int) (month day : Nat) : Option Date :=
  if h : firstYear ≤ year ∧ year ≤ lastYear ∧ 1 ≤ month ∧ month ≤ 12 ∧ 1 ≤ day ∧
      day ≤ daysInMonth (isLeap year) month then
    some ⟨year, month, day, h.1, h.2.1, h.2.2.1, h.2.2.2.1, h.2.2.2.2.1, h.2.2.2.2.2⟩
  else none

/-- The number of the day in its year, from 1. -/
def ordinal (d : Date) : Nat := daysBefore (isLeap d.year) d.month + d.day

/-- The number of days from 0000-01-01. -/
def dayNumber (d : Date) : Int := yearStart d.year + (d.ordinal - 1)

theorem ordinal_pos (d : Date) : 1 ≤ d.ordinal := by
  have := d.day_pos
  unfold ordinal
  omega

theorem ordinal_le (d : Date) : d.ordinal ≤ 366 := by
  have bound : ∀ leap : Bool, ∀ month : Fin 13, 1 ≤ month.val →
      daysBefore leap month.val + daysInMonth leap month.val ≤ 366 := by decide
  have h := bound (isLeap d.year) ⟨d.month, Nat.lt_succ_of_le d.month_le⟩ d.month_pos
  have := d.day_le
  unfold ordinal
  simp only at h
  omega

theorem dayNumber_bounds (d : Date) : -96000000 ≤ d.dayNumber ∧ d.dayNumber ≤ 96000000 := by
  have h1 := d.year_ge
  have h2 := d.year_le
  have h3 := d.ordinal_pos
  have h4 := d.ordinal_le
  unfold firstYear at h1
  unfold lastYear at h2
  unfold dayNumber yearStart
  omega

/-- The year that holds a day number. An average year has 146097 / 400 days, which meets the
year or one of its neighbours. -/
def yearOf (n : Int) : Int :=
  let guess := 400 * n / 146097
  if n < yearStart guess then guess - 1
  else if yearStart (guess + 1) ≤ n then guess + 1
  else guess

/-- The month and day of the day with `k` days before it, counted from the first of the first
month listed. -/
def splitDay (leap : Bool) (k : Nat) : List Nat → Nat × Nat
  | [] => (12, k + 1)
  | month :: months =>
    if k < daysInMonth leap month then (month, k + 1)
    else splitDay leap (k - daysInMonth leap month) months

/-- The date with a day number. -/
def ofDayNumber? (n : Int) : Option Date :=
  let year := yearOf n
  let (month, day) :=
    splitDay (isLeap year) (n - yearStart year).toNat [1, 2, 3, 4, 5, 6, 7, 8, 9, 10, 11, 12]
  ofParts? year month day

/-- The date `months` months later; in a month that is too short, its last day. -/
def addMonths? (d : Date) (months : Int) : Option Date :=
  let total := d.year * 12 + (d.month - 1) + months
  let month := (total % 12).toNat + 1
  ofParts? (total / 12) month (min d.day (daysInMonth (isLeap (total / 12)) month))

/-- The order of dates. -/
def compare (a b : Date) : Ordering :=
  (Ord.compare a.year b.year).then ((Ord.compare a.month b.month).then (Ord.compare a.day b.day))

/-! ## Weeks -/

/-- The days from the last Monday to a day number. -/
def sinceMonday (n : Int) : Nat := ((n + 5) % 7).toNat

/-- The days from the last Sunday to a day number. -/
def sinceSunday (n : Int) : Nat := ((n + 6) % 7).toNat

/-- The week number of a date when weeks start on the day `since` days before it and the days
before the year's first full week are week zero. -/
def weekOfYear (d : Date) (since : Nat) : Nat := (d.ordinal + 6 - since) / 7

/-- The day number of the Thursday in the date's week, which decides the week's year. -/
def thursday (d : Date) : Int := d.dayNumber - sinceMonday d.dayNumber + 3

/-- The year that the date's week belongs to. -/
def weekYear (d : Date) : Int := yearOf d.thursday

/-- The number of the date's week in that year. -/
def week (d : Date) : Nat := ((d.thursday - yearStart d.weekYear) / 7).toNat + 1

end Date

end ComputedFields.Calendar
