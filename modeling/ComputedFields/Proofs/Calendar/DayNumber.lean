import ComputedFields.Calendar.DateTime

/-!
# Days and nanoseconds counted

The date found for a day number is the date with that number. So an instant that is reached by adding
a span is that span away from where it started, as long as no leap second is involved.
-/

namespace ComputedFields.Calendar

/-! ## Years -/

theorem isLeap_iff (year : Int) :
    isLeap year = true ↔ year % 4 = 0 ∧ (year % 100 ≠ 0 ∨ year % 400 = 0) := by
  simp [isLeap]

/-- The length of a year. -/
def daysInYear (leap : Bool) : Nat := if leap then 366 else 365

theorem yearStart_succ (year : Int) :
    yearStart (year + 1) = yearStart year + daysInYear (isLeap year) := by
  have hleap := isLeap_iff year
  unfold yearStart daysInYear
  cases h : isLeap year with
  | false =>
    simp only [h, Bool.false_eq_true, if_false, false_iff] at hleap ⊢
    omega
  | true =>
    simp only [h, if_true, true_iff] at hleap ⊢
    omega

/-- An average year has 146097 / 400 days, and no year starts as much as two days off. -/
theorem yearStart_bounds (year : Int) :
    146097 * year - 400 < 400 * yearStart year ∧ 400 * yearStart year < 146097 * year + 700 := by
  unfold yearStart
  omega

namespace Date

variable {n year : Int} {month day first k : Nat} {d : Date}

/-- The year found for a day number has started by that day and ends after it. -/
theorem yearStart_yearOf (n : Int) : yearStart (yearOf n) ≤ n ∧ n < yearStart (yearOf n + 1) := by
  obtain ⟨guess, hguess⟩ : ∃ guess, guess = 400 * n / 146097 := ⟨_, rfl⟩
  have hbefore := yearStart_bounds (guess - 1)
  have hafter := yearStart_bounds (guess + 1 + 1)
  rw [yearOf, ← hguess]
  split
  · rw [Int.sub_add_cancel]
    omega
  · split <;> omega

/-! ## Days of a year -/

theorem daysBefore_succ (leap : Bool) (h : 1 ≤ month) :
    daysBefore leap (month + 1) = daysBefore leap month + daysInMonth leap month := by
  obtain ⟨month, rfl⟩ := Nat.exists_eq_add_of_le' h
  rfl

/-- The month and the day that are split off the days of a year have that many days before them. -/
theorem daysBefore_splitDay (leap : Bool) (count : Nat) (hfirst : 1 ≤ first)
    (h : daysBefore leap first + k < daysBefore leap (first + count)) :
    daysBefore leap (splitDay leap k (List.range' first count)).1 +
      (splitDay leap k (List.range' first count)).2 = daysBefore leap first + k + 1 := by
  induction count generalizing first k with
  | zero =>
    rw [Nat.add_zero] at h
    omega
  | succ count ih =>
    have hnext := daysBefore_succ leap hfirst
    rw [Nat.add_comm count, ← Nat.add_assoc] at h
    have hfirst' : 1 ≤ first + 1 := Nat.le_add_left 1 first
    rw [List.range'_succ, splitDay]
    split
    · rfl
    · rename_i hlong
      rw [ih hfirst' (by omega)]
      omega

theorem ofParts?_eq_some (h : ofParts? year month day = some d) :
    d.year = year ∧ d.month = month ∧ d.day = day := by
  rw [ofParts?] at h
  split at h
  · cases h
    exact ⟨rfl, rfl, rfl⟩
  · cases h

/-- The date found for a day number has that number. -/
theorem dayNumber_of_ofDayNumber? (h : ofDayNumber? n = some d) : d.dayNumber = n := by
  obtain ⟨hstart, hend⟩ := yearStart_yearOf n
  rw [yearStart_succ] at hend
  have hdays : daysBefore (isLeap (yearOf n)) (1 + 12) = daysInYear (isLeap (yearOf n)) := by
    cases isLeap (yearOf n) <;> rfl
  have hfirst : daysBefore (isLeap (yearOf n)) 1 = 0 := rfl
  have hsplit := daysBefore_splitDay (isLeap (yearOf n)) 12
    (k := (n - yearStart (yearOf n)).toNat) (Nat.le_refl 1) (by omega)
  have hparts : ofDayNumber? n = ofParts? (yearOf n)
      (splitDay (isLeap (yearOf n)) (n - yearStart (yearOf n)).toNat (List.range' 1 12)).1
      (splitDay (isLeap (yearOf n)) (n - yearStart (yearOf n)).toNat (List.range' 1 12)).2 := rfl
  obtain ⟨hyear, hmonth, hday⟩ := ofParts?_eq_some (hparts ▸ h)
  rw [← hmonth, ← hday] at hsplit
  rw [dayNumber, ordinal, hyear]
  omega

end Date

/-! ## Instants -/

namespace DateTime

variable {a b d e : DateTime} {dayNumber nanos : Int} {span : Duration}

/-- The nanoseconds from the start of the year 0, with 86400 seconds to every day. -/
def position (d : DateTime) : Int :=
  d.date.dayNumber * (secondsPerDay * nanosPerSecond) + d.time.seconds * nanosPerSecond +
    d.time.nanos

theorem nanosSince_eq (ha : a.time.isLeap = false) (hb : b.time.isLeap = false) :
    a.nanosSince b = a.position - b.position := by
  simp only [nanosSince, TimeOfDay.since, ha, hb, Bool.and_false, Bool.false_eq_true, if_false,
    position, secondsPerDay, nanosPerSecond]
  omega

theorem position_of_ofDayNanos? (h : ofDayNanos? dayNumber nanos = some e) :
    e.time.isLeap = false ∧
      e.position = dayNumber * (secondsPerDay * nanosPerSecond) + nanos := by
  obtain ⟨date, hdate, h⟩ := Option.bind_eq_some_iff.mp h
  have hday := Date.dayNumber_of_ofDayNumber? hdate
  split at h
  · cases h
    simp only [TimeOfDay.isLeap, position, hday, decide_eq_false_iff_not]
    simp only [secondsPerDay, nanosPerSecond]
    omega
  · cases h

/-- An instant is as far from where it was reached from as the span that was added. -/
theorem nanosSince_of_add? (hd : d.time.isLeap = false) (h : d.add? span = some e) :
    e.nanosSince d = span.nanos := by
  rw [add?, hd] at h
  obtain ⟨he, hposition⟩ := position_of_ofDayNanos? h
  rw [nanosSince_eq he hd, hposition, position]
  omega

end DateTime

end ComputedFields.Calendar
