import ComputedFields.Proofs.Calendar.Order

/-!
# Months counted

Months are counted from the start of the year 0. A date that is moved by months lands in the month
that is so many later, on its own day or on the last one that the month has.
-/

namespace ComputedFields.Calendar

/-- The length of the month that has so many months before it since the start of the year 0. -/
def monthLength (index : Int) : Nat := daysInMonth (isLeap (index / 12)) ((index % 12).toNat + 1)

namespace Date

variable {a b d e : Date} {months : Int}

/-- The months before that of the date since the start of the year 0. -/
def monthIndex (d : Date) : Int := d.year * 12 + (d.month - 1)

theorem day_le_monthLength (d : Date) : d.day ≤ monthLength d.monthIndex := by
  have hpos := d.month_pos
  have hle := d.month_le
  have hyear : d.monthIndex / 12 = d.year := by
    rw [monthIndex]
    omega
  have hmonth : (d.monthIndex % 12).toNat + 1 = d.month := by
    rw [monthIndex]
    omega
  rw [monthLength, hyear, hmonth]
  exact d.day_le

theorem monthIndex_of_addMonths? (h : d.addMonths? months = some e) :
    e.monthIndex = d.monthIndex + months := by
  obtain ⟨hyear, hmonth, -⟩ := ofParts?_eq_some h
  simp only [monthIndex, hyear, hmonth]
  omega

theorem day_of_addMonths? (h : d.addMonths? months = some e) :
    e.day = min d.day (monthLength (d.monthIndex + months)) :=
  (ofParts?_eq_some h).2.2

/-- A date in an earlier month is earlier. -/
theorem compare_of_monthIndex_lt (h : a.monthIndex < b.monthIndex) : a.compare b = .lt := by
  have ha := a.month_pos
  have hb := b.month_le
  rw [monthIndex, monthIndex] at h
  rw [compare_eq_lt]
  omega

end Date

namespace DateTime

variable {d e : DateTime} {months : Int}

theorem addMonths?_eq_some (h : d.addMonths? months = some e) :
    d.date.addMonths? months = some e.date ∧ e.time = d.time := by
  obtain ⟨date, hdate, rfl⟩ := Option.map_eq_some_iff.mp h
  exact ⟨hdate, rfl⟩

/-- An instant in an earlier month is earlier. -/
theorem compare_of_monthIndex_lt (h : d.date.monthIndex < e.date.monthIndex) :
    d.compare e = .lt := by
  rw [compare, Date.compare_of_monthIndex_lt h]
  rfl

end DateTime

end ComputedFields.Calendar
