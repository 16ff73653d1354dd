import ComputedFields.Library.Dates
import ComputedFields.Proofs.Calendar.Spans
import ComputedFields.Proofs.Except
import ComputedFields.Proofs.Guarded.Steps

/-!
# Date functions without a fault

Differences and steps with years in words of 32 bits, and months and milliseconds in words of 64.
The years of the calendar and the longest span leave room for all of them, and steps of more months
than a word of 32 bits holds lead out of the calendar.
-/

namespace ComputedFields

open Calendar (DateTime)

/-! ## Bounds of the calendar -/

theorem years_apart (a b : Calendar.Date) :
    -524285 ≤ a.year - b.year ∧ a.year - b.year ≤ 524285 := by
  have ha := a.year_ge
  have ha' := a.year_le
  have hb := b.year_ge
  have hb' := b.year_le
  rw [Calendar.firstYear] at ha hb
  rw [Calendar.lastYear] at ha' hb'
  omega

/-- A step of very many months leads out of the calendar. -/
theorem addMonths?_of_long {steps : Int} (d : DateTime) (h : 2 ^ 32 ≤ steps.natAbs) :
    d.addMonths? steps = none := by
  have hge := d.date.year_ge
  have hle := d.date.year_le
  have hmonth := d.date.month_le
  rw [Calendar.firstYear] at hge
  rw [Calendar.lastYear] at hle
  rw [Calendar.DateTime.addMonths?, Calendar.Date.addMonths?, Calendar.Date.ofParts?, dif_neg,
    Option.map_none]
  rw [Calendar.firstYear, Calendar.lastYear]
  rintro ⟨hfirst, hlast, -⟩
  omega

namespace Guarded

variable {args : List Value} {whole : Int}

/-! ## Differences -/

/-- The whole months from `earlier` to an instant that is not before it. -/
def monthsSince (later earlier : DateTime) : Except Fault Int := do
  let years ← signed 32 (later.date.year - earlier.date.year)
  let months ← signed 64 (years * 12)
  let months ← signed 64 (months + later.date.month)
  let months ← signed 64 (months - earlier.date.month)
  if Library.earlierInMonth later earlier then signed 64 (months - 1) else return months

/-- The whole months from `b` to `a`, negative when `a` is the earlier one. -/
def monthsBetween (a b : DateTime) : Except Fault Int :=
  if (a.compare b).isLT then do
    let months ← monthsSince b a
    signed 64 (-months)
  else monthsSince a b

/-- The whole units from `b` to `a`. -/
def dateDifference (a b : DateTime) (unit : Library.TimeUnit) : Except Fault Int :=
  match unit.length with
  | .millis n => do
    let millis ← signed 64 (a.since b).millis
    wordQuotient millis n
  | .months n => do
    let months ← monthsBetween a b
    wordQuotient months n

def dateDiff (args : List Value) : Guarded Value := do
  let a ← argument args 0
  let later ← a.toDate
  let b ← argument args 1
  let earlier ← b.toDate
  let unit ← Library.unitOrDays (args.drop 2)
  let result ← dateDifference later earlier unit
  return Value.ofInt result

/-! ## Steps -/

/-- The number of months in a step, in a word of 32 bits. -/
def monthCount (months : Int) : Except ErrorKind Nat :=
  if months.natAbs < 2 ^ 32 then .ok months.natAbs else .error .numericOverflow

/-- The date a number of months later, or earlier when it is negative. The calendar takes months in
a word of 32 bits, apart from the direction. -/
def monthStep (d : DateTime) (steps : Int) : Guarded DateTime := do
  let steps ← Value.checkInteger steps
  let steps ← signed 64 steps
  let size ← monthCount steps
  let size ← unsigned 32 size
  Value.orOverflow (d.addMonths? (if 0 ≤ steps then size else -size))

/-- The date a number of units later. The calendar takes milliseconds in a word of 64 bits. -/
def dateStep (d : DateTime) (count : Decimal) (unit : Library.TimeUnit) : Guarded DateTime :=
  match unit.length with
  | .millis n => do
    let factor ← Value.orOverflow (Decimal.ofInt? n)
    let product ← Value.orOverflow (count.mul? factor)
    let millis ← Value.checkInteger product.toInt
    let millis ← signed 64 millis
    let span ← Value.orOverflow (Calendar.Duration.ofMillis? millis)
    Value.orOverflow (d.add? span)
  | .months n => do
    let whole ← Value.checkInteger count.toInt
    let months ← signed 64 whole
    monthStep d (months * n)

/-- The date later by a count of a unit, both read from arguments. -/
def dateAfter (d : DateTime) (b : Value) (rest : List Value) : Guarded Value := do
  let count ← b.toNumber
  let unit ← Library.unitOrDays rest
  let result ← dateStep d count unit
  return .date result

def dateAdd (args : List Value) : Guarded Value := do
  let a ← argument args 0
  let d ← a.toDate
  let b ← argument args 1
  match b, args[2]? with
  | .duration span, none => do
    let result ← Value.orOverflow (d.add? span)
    return .date result
  | _, _ => dateAfter d b (args.drop 2)

/-! ## Differences in range -/

theorem signed_of_natAbs (h : whole.natAbs < 2 ^ 63) : signed 64 whole = .ok whole :=
  signed_of_bounds (by omega) (by omega)

/-- A quotient is no greater than the dividend. -/
theorem wordQuotient_eq {divisor : Nat} (hdivisor : divisor ≠ 0) (h : whole.natAbs < 2 ^ 63) :
    wordQuotient whole divisor = .ok (whole.tdiv divisor) := by
  have hle : (whole.tdiv divisor).natAbs ≤ whole.natAbs := by
    rw [Int.natAbs_tdiv]
    exact Nat.div_le_self _ _
  rw [wordQuotient, if_neg (by omega), signed_of_natAbs (by omega)]

/-- Two dates of the calendar are less than `2 ^ 23` months apart. -/
theorem natAbs_monthsSince (later earlier : DateTime) :
    (Library.monthsSince later earlier).natAbs < 2 ^ 23 := by
  have hyears := years_apart later.date earlier.date
  have hlater := later.date.month_le
  have hearlier := earlier.date.month_le
  rw [Library.monthsSince]
  split <;> omega

theorem monthsSince_eq (later earlier : DateTime) :
    monthsSince later earlier = .ok (Library.monthsSince later earlier) := by
  obtain ⟨hge, hle⟩ := years_apart later.date earlier.date
  have hlater := later.date.month_le
  have hearlier := earlier.date.month_le
  have hyears : signed 32 (later.date.year - earlier.date.year) = .ok _ :=
    signed_of_bounds (by omega) (by omega)
  have hmonths : signed 64 ((later.date.year - earlier.date.year) * 12) = .ok _ :=
    signed_of_natAbs (by omega)
  have hsum : signed 64 ((later.date.year - earlier.date.year) * 12 + later.date.month) = .ok _ :=
    signed_of_natAbs (by omega)
  have hdifference : signed 64 ((later.date.year - earlier.date.year) * 12 + later.date.month -
      earlier.date.month) = .ok _ :=
    signed_of_natAbs (by omega)
  rw [monthsSince, bind_of_ok hyears, bind_of_ok hmonths, bind_of_ok hsum, bind_of_ok hdifference,
    Library.monthsSince, Int.add_sub_assoc]
  split
  · exact signed_of_natAbs (by omega)
  · rfl

theorem monthsBetween_eq (a b : DateTime) :
    monthsBetween a b = .ok (Library.monthsBetween a b) := by
  rw [monthsBetween, Library.monthsBetween]
  split
  · have := natAbs_monthsSince b a
    rw [bind_of_ok (monthsSince_eq b a)]
    exact signed_of_natAbs (by omega)
  · exact monthsSince_eq a b

theorem natAbs_monthsBetween (a b : DateTime) : (Library.monthsBetween a b).natAbs < 2 ^ 23 := by
  rw [Library.monthsBetween]
  split
  · rw [Int.natAbs_neg]
    exact natAbs_monthsSince b a
  · exact natAbs_monthsSince a b

theorem dateDifference_eq (a b : DateTime) (unit : Library.TimeUnit) :
    dateDifference a b unit = .ok (Library.dateDifference a b unit) := by
  rw [dateDifference, Library.dateDifference]
  cases hlength : unit.length with
  | millis n =>
    have hn : n ≠ 0 := by cases unit <;> cases hlength <;> decide
    have hmillis := (a.since b).natAbs_millis
    simp only [bind_of_ok (signed_of_natAbs hmillis), wordQuotient_eq hn hmillis]
  | months n =>
    have hn : n ≠ 0 := by cases unit <;> cases hlength <;> decide
    have hmonths := natAbs_monthsBetween a b
    simp only [bind_of_ok (monthsBetween_eq a b)]
    exact wordQuotient_eq hn (by omega)

theorem faultless_dateDiff (h : 2 ≤ args.length) :
    Faultless (dateDiff args) (Library.dateDiff args) := by
  match args with
  | a :: b :: rest =>
    refine .step rfl ((faultless_lift a.toDate).bind fun later _ => ?_)
    refine .step rfl ((faultless_lift b.toDate).bind fun earlier _ => ?_)
    refine (faultless_lift (Library.unitOrDays rest)).bind fun unit _ => ?_
    exact .step (dateDifference_eq later earlier unit) (faultless_pure _)

/-! ## Steps in range -/

theorem checkInteger_of_natAbs (h : whole.natAbs < 2 ^ 63) :
    Value.checkInteger whole = .ok whole := by
  rw [Value.checkInteger, Value.minInteger, Value.maxInteger]
  exact if_pos (by omega)

/-- A step that fits a word of 32 bits is taken as it is; a longer one leads out of the calendar. -/
theorem faultless_monthStep (d : DateTime) (steps : Int) :
    Faultless (monthStep d steps) (Value.orOverflow (d.addMonths? steps)) := by
  rw [monthStep]
  by_cases hword : steps.natAbs < 2 ^ 32
  · have hsize : (if 0 ≤ steps then (steps.natAbs : Int) else -steps.natAbs) = steps := by
      split <;> omega
    refine .passed (checkInteger_of_natAbs (by omega)) (.step (signed_of_natAbs (by omega)) ?_)
    refine .passed (if_pos hword) (.step (if_pos hword) ?_)
    rw [hsize]
    exact faultless_lift _
  · rw [addMonths?_of_long d (Nat.le_of_not_lt hword), Value.orOverflow]
    rcases checkInteger_cases steps with ⟨hpassed, hge, hlt⟩ | hfailed
    · exact .passed hpassed (.step (signed_of_bounds hge hlt) (.failed (if_neg hword)))
    · exact .failed hfailed

theorem faultless_dateStep (d : DateTime) (count : Decimal) (unit : Library.TimeUnit) :
    Faultless (dateStep d count unit) (Library.dateStep d count unit) := by
  rw [dateStep, Library.dateStep]
  cases unit.length with
  | millis n =>
    refine (faultless_lift _).bind fun factor _ => (faultless_lift _).bind fun product _ => ?_
    refine (faultless_lift _).bind fun millis hmillis => .step (signed_of_checkInteger hmillis) ?_
    exact (faultless_lift _).bind fun span _ => faultless_lift _
  | months n =>
    refine (faultless_lift _).bind fun whole hwhole => .step (signed_of_checkInteger hwhole) ?_
    exact faultless_monthStep d (whole * n)

/-- Only a single value that is a span of time is added as one. -/
theorem faultless_dateAdd (h : 2 ≤ args.length) :
    Faultless (dateAdd args) (Library.dateAdd args) := by
  match args with
  | a :: b :: rest =>
    have hspan (span : Calendar.Duration) :
        Faultless (dateAdd [a, .duration span]) (Library.dateAdd [a, .duration span]) := by
      refine .step rfl ((faultless_lift a.toDate).bind fun d _ => .step rfl ?_)
      exact (faultless_lift (Value.orOverflow (d.add? span))).bind fun _ _ => faultless_pure _
    have hunits : Faultless (do
        let d ← a.toDate
        dateAfter d b rest) (do
        let d ← a.toDate
        let count ← b.toNumber
        let unit ← Library.unitOrDays rest
        let result ← Library.dateStep d count unit
        return Value.date result) := by
      refine (faultless_lift _).bind fun d _ => (faultless_lift _).bind fun count _ => ?_
      refine (faultless_lift _).bind fun unit _ => ?_
      exact (faultless_dateStep d count unit).bind fun _ _ => faultless_pure _
    cases rest with
    | nil =>
      cases b with
      | duration span => exact hspan span
      | _ => exact hunits
    | cons c rest => cases b <;> exact hunits

end Guarded

end ComputedFields
