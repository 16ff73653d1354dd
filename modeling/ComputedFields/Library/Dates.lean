import ComputedFields.Calendar.Pattern
import ComputedFields.Formula.Operator
import ComputedFields.Library.Function

/-! Date functions: differences and steps in units from milliseconds to years, and the layout of
dates by patterns. -/

namespace ComputedFields.Library

open Calendar (DateTime Duration)
open Value (ofInt orOverflow)

/-- A unit of time. -/
inductive TimeUnit where
  | milliseconds
  | seconds
  | minutes
  | hours
  | days
  | weeks
  | months
  | years
deriving DecidableEq, Repr

namespace TimeUnit

/-- The unit with a name, in any case and with white space around it. -/
def ofName? (name : String) : Option TimeUnit :=
  match Text.asciiLower (Text.trim name) with
  | "ms" | "millisecond" | "milliseconds" => some .milliseconds
  | "s" | "second" | "seconds" => some .seconds
  | "m" | "minute" | "minutes" => some .minutes
  | "h" | "hour" | "hours" => some .hours
  | "d" | "day" | "days" => some .days
  | "w" | "week" | "weeks" => some .weeks
  | "month" | "months" => some .months
  | "y" | "year" | "years" => some .years
  | _ => none

/-- How long a unit is: a number of milliseconds, or of calendar months. -/
inductive Length where
  | millis (n : Nat)
  | months (n : Nat)

/-- The length of a unit. -/
def length : TimeUnit → Length
  | .milliseconds => .millis 1
  | .seconds => .millis 1000
  | .minutes => .millis 60000
  | .hours => .millis 3600000
  | .days => .millis 86400000
  | .weeks => .millis 604800000
  | .months => .months 1
  | .years => .months 12

end TimeUnit

/-- The unit in an optional argument, days where there is none. -/
def unitOrDays : List Value → Except ErrorKind TimeUnit
  | [] => .ok .days
  | a :: _ => do
    let name ← a.asText
    match TimeUnit.ofName? name with
    | some unit => return unit
    | none => .error .invalidArgument

/-- Whether an instant comes before another in its month. -/
def earlierInMonth (a b : DateTime) : Bool :=
  ((Ord.compare a.date.day b.date.day).then (a.time.compare b.time)).isLT

/-- The whole months from `earlier` to an instant that is not before it: a month counts once its
day and time are reached. -/
def monthsSince (later earlier : DateTime) : Int :=
  let months := (later.date.year - earlier.date.year) * 12 +
    ((later.date.month : Int) - earlier.date.month)
  if earlierInMonth later earlier then months - 1 else months

/-- The whole months from `b` to `a`, negative when `a` is the earlier one. -/
def monthsBetween (a b : DateTime) : Int :=
  if (a.compare b).isLT then -monthsSince b a else monthsSince a b

/-- The whole units from `b` to `a`, without the part of one that is left. -/
def dateDifference (a b : DateTime) (unit : TimeUnit) : Int :=
  match unit.length with
  | .millis n => (a.since b).millis.tdiv n
  | .months n => (monthsBetween a b).tdiv n

def dateDiff : List Value → Except ErrorKind Value
  | a :: b :: rest => do
    let later ← a.toDate
    let earlier ← b.toDate
    let unit ← unitOrDays rest
    return ofInt (dateDifference later earlier unit)
  | _ => .error .arityMismatch

/-- The date a number of units later. Milliseconds and months are whole, without the digits after
the point. -/
def dateStep (d : DateTime) (count : Decimal) (unit : TimeUnit) : Except ErrorKind DateTime :=
  match unit.length with
  | .millis n => do
    let factor ← orOverflow (Decimal.ofInt? n)
    let product ← orOverflow (count.mul? factor)
    let millis ← Value.checkInteger product.toInt
    let span ← orOverflow (Duration.ofMillis? millis)
    orOverflow (d.add? span)
  | .months n => do
    let months ← Value.checkInteger count.toInt
    orOverflow (d.addMonths? (months * n))

def dateAdd : List Value → Except ErrorKind Value
  | [a, .duration span] => do
    let d ← a.toDate
    let result ← orOverflow (d.add? span)
    return .date result
  | a :: b :: rest => do
    let d ← a.toDate
    let count ← b.toNumber
    let unit ← unitOrDays rest
    let result ← dateStep d count unit
    return .date result
  | _ => .error .arityMismatch

/-- The text of a date: laid out by a pattern, or the ISO 8601 form where there is none. -/
def formatDate : List Value → Except ErrorKind Value
  | [a] => a.toDate.map fun d => .text d.toText
  | [a, b] => do
    let d ← a.toDate
    let pattern ← b.asText
    match d.format? pattern with
    | some s => return .text s
    | none => .error .invalidArgument
  | _ => .error .arityMismatch

def year : List Value → Except ErrorKind Value
  | [a] => a.toDate.map fun d => ofInt d.date.year
  | _ => .error .arityMismatch

def month : List Value → Except ErrorKind Value
  | [a] => a.toDate.map fun d => ofInt d.date.month
  | _ => .error .arityMismatch

def day : List Value → Except ErrorKind Value
  | [a] => a.toDate.map fun d => ofInt d.date.day
  | _ => .error .arityMismatch

end ComputedFields.Library
