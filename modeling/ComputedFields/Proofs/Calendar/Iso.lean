import ComputedFields.Calendar.Iso
import ComputedFields.Proofs.Decimal.Text
import ComputedFields.Proofs.Text.Blank

/-!
# Reading instants back

The written form of an instant reads back as what the clock shows: the same date, hour, minute and
second, without the fraction. The exact form keeps the fraction too. The year may have a sign and
more than four digits, and the second may be the 60th.

A leap second is written as the second 60 where it follows the second 59. Anywhere else it is a
stray one, which no text is read as: it is written as the second after it, and that is what is read.
-/

namespace ComputedFields

/-! ## Digits before a separator -/

namespace Digits

variable {c : Char} {ds rest : List Char} {limit width n : Nat}

/-- A run of digits is read in full where no digit follows it. -/
theorem takeUpTo_append_of_ends (hdigits : ∀ c ∈ ds, c.isDigit = true) (hlength : ds.length ≤ limit)
    (hends : rest.head?.any Char.isDigit = false) : takeUpTo limit (ds ++ rest) = (ds, rest) := by
  induction ds generalizing limit with
  | nil =>
    cases limit with
    | zero => rfl
    | succ limit =>
      cases rest with
      | nil => rfl
      | cons c cs =>
        have hc : c.isDigit = false := hends
        rw [List.nil_append, takeUpTo, hc]
        rfl
  | cons c cs ih =>
    cases limit with
    | zero => cases hlength
    | succ limit =>
      have hc : c.isDigit = true := hdigits c List.mem_cons_self
      have hcs : ∀ x ∈ cs, x.isDigit = true := fun x hx => hdigits x (List.mem_cons_of_mem c hx)
      rw [List.cons_append, takeUpTo, hc, ih hcs (Nat.le_of_succ_le_succ hlength)]
      rfl

theorem isDigit_of_mem_padded (h : c ∈ padded '0' width n) : c.isDigit = true := by
  rcases List.mem_append.mp h with h | h
  · rw [List.eq_of_mem_replicate h]
    rfl
  · exact Nat.isDigit_of_mem_toDigits (by decide) (by decide) h

theorem padded_ne_nil (width n : Nat) : padded '0' width n ≠ [] := by
  rw [padded]
  exact List.append_ne_nil_of_right_ne_nil _ Nat.toDigits_ne_nil

theorem head?_padded (width n : Nat) (rest : List Char) :
    ∃ c cs, padded '0' width n ++ rest = c :: cs ∧ c.isDigit = true := by
  obtain ⟨c, cs, hcs⟩ := List.exists_cons_of_ne_nil (padded_ne_nil width n)
  have hc : c ∈ padded '0' width n := hcs ▸ List.mem_cons_self
  exact ⟨c, cs ++ rest, by rw [hcs, List.cons_append], isDigit_of_mem_padded hc⟩

theorem takeUpTo_padded (hlength : (padded '0' width n).length ≤ limit)
    (hends : rest.head?.any Char.isDigit = false) :
    takeUpTo limit (padded '0' width n ++ rest) = (padded '0' width n, rest) :=
  takeUpTo_append_of_ends (fun _ => isDigit_of_mem_padded) hlength hends

/-- Leading zeros count for nothing. -/
theorem value_padded (width n : Nat) : value (padded '0' width n) = n := by
  have hzeros (k : Nat) : Nat.ofDigitChars 10 (List.replicate k '0') 0 = 0 := by
    induction k with
    | zero => exact Nat.ofDigitChars_nil
    | succ k ih =>
      rw [List.replicate_succ, Nat.ofDigitChars_cons]
      exact ih
  rw [value, padded, Nat.ofDigitChars_append, hzeros, Nat.ofDigitChars_ten_toDigits]

theorem length_padded (hwidth : 0 < width) (h : n < tenPow width) :
    (padded '0' width n).length = width := by
  have hdigits := (Nat.length_toDigits_le_iff (by decide) hwidth).mpr h
  rw [padded, List.length_append, List.length_replicate]
  omega

end Digits

namespace Calendar

variable {c : Char} {rest : List Char} {limit n : Nat}

theorem readChar?_cons (c : Char) (rest : List Char) : readChar? c (c :: rest) = some rest :=
  if_pos rfl

theorem trimStart_padded (width n : Nat) (rest : List Char) :
    Text.trimStart (Digits.padded '0' width n ++ rest) = Digits.padded '0' width n ++ rest := by
  obtain ⟨c, cs, hcs, hc⟩ := Digits.head?_padded width n rest
  rw [hcs]
  refine Text.trimStart_eq_self fun x hx => ?_
  obtain rfl := Option.some.inj hx
  exact Text.isBlank_digit hc

/-- A number of fixed width is read back where no digit follows it. -/
theorem readNumber?_padded (rest : List Char) (hlimit : 0 < limit) (h : n < tenPow limit)
    (hends : rest.head?.any Char.isDigit = false) :
    readNumber? limit (Digits.padded '0' limit n ++ rest) = some (n, rest) := by
  have htake := Digits.takeUpTo_padded (Nat.le_of_eq (Digits.length_padded hlimit h)) hends
  have hsome := List.isEmpty_eq_false_iff.mpr (Digits.padded_ne_nil limit n)
  simp only [readNumber?, trimStart_padded, htake, hsome, Digits.value_padded,
    Bool.false_eq_true, if_false]

/-! ## Dates -/

/-- The digits after a sign are read however many they are. -/
theorem readSigned_padded (width n : Nat) (hends : rest.head?.any Char.isDigit = false) :
    readYear?.readSigned (Digits.padded '0' width n ++ rest) = some (n, rest) := by
  have hlength : (Digits.padded '0' width n).length ≤
      (Digits.padded '0' width n ++ rest).length := by
    rw [List.length_append]
    exact Nat.le_add_right _ _
  have htake := Digits.takeUpTo_padded hlength hends
  have hsome := List.isEmpty_eq_false_iff.mpr (Digits.padded_ne_nil width n)
  simp only [readYear?.readSigned, htake, hsome, Digits.value_padded, Bool.false_eq_true, if_false]

theorem readYear?_minus (cs : List Char) : readYear? ('-' :: cs) =
    (readYear?.readSigned cs).map fun (year, after) => (-(year : Int), after) := rfl

theorem readYear?_plus (cs : List Char) : readYear? ('+' :: cs) =
    (readYear?.readSigned cs).map fun (year, after) => ((year : Int), after) := rfl

/-- A year without sign is read as a number of at most four digits. -/
theorem readYear?_padded (width n : Nat) (rest : List Char) :
    readYear? (Digits.padded '0' width n ++ rest) =
      (readNumber? 4 (Digits.padded '0' width n ++ rest)).map fun (year, after) =>
        ((year : Int), after) := by
  have htrim := trimStart_padded width n rest
  obtain ⟨c, cs, hcs, hc⟩ := Digits.head?_padded width n rest
  rw [hcs] at htrim ⊢
  rw [readYear?, htrim]
  split
  · rename_i heq
    cases heq
    cases hc
  · rename_i heq
    cases heq
    cases hc
  · rfl

/-- A year is read back where no digit follows it. -/
theorem readYear?_yearChars (year : Int) (rest : List Char)
    (hends : rest.head?.any Char.isDigit = false) :
    readYear? (yearChars year ++ rest) = some (year, rest) := by
  rw [yearChars]
  split
  · rename_i hshort
    obtain ⟨hpos, hle⟩ : 0 ≤ year ∧ year ≤ 9999 := by simpa using hshort
    have hdigits : year.toNat < tenPow 4 := by
      rw [show tenPow 4 = 10000 from rfl]
      omega
    rw [readYear?_padded, readNumber?_padded rest (by decide) hdigits hends]
    exact congrArg (fun y : Int => some (y, rest)) (Int.toNat_of_nonneg hpos)
  · have hread := readSigned_padded 4 year.natAbs hends
    split
    · rename_i hneg
      have hyear : -(year.natAbs : Int) = year := by omega
      rw [List.cons_append, readYear?_minus, hread]
      exact congrArg (fun y => some (y, rest)) hyear
    · rename_i hneg
      have hyear : (year.natAbs : Int) = year := by omega
      rw [List.cons_append, readYear?_plus, hread]
      exact congrArg (fun y => some (y, rest)) hyear

theorem Date.ofParts?_self (d : Date) : Date.ofParts? d.year d.month d.day = some d :=
  dif_pos ⟨d.year_ge, d.year_le, d.month_pos, d.month_le, d.day_pos, d.day_le⟩

theorem daysInMonth_le (leap : Bool) (month : Nat) : daysInMonth leap month ≤ 31 := by
  unfold daysInMonth
  split
  · split <;> decide
  all_goals decide

theorem Date.toChars_append (d : Date) (rest : List Char) : d.toChars ++ rest =
    yearChars d.year ++ '-' :: (Digits.padded '0' 2 d.month ++
      '-' :: (Digits.padded '0' 2 d.day ++ rest)) := by
  simp [Date.toChars]

/-- A date is read back where no digit follows it. -/
theorem readDate?_toChars (d : Date) (rest : List Char)
    (hends : rest.head?.any Char.isDigit = false) :
    readDate? (d.toChars ++ rest) = some (d, rest) := by
  have hmonth : d.month < tenPow 2 := Nat.lt_of_le_of_lt d.month_le (by decide)
  have hday : d.day < tenPow 2 :=
    Nat.lt_of_le_of_lt (Nat.le_trans d.day_le (daysInMonth_le _ _)) (by decide)
  have hreadDay := readNumber?_padded rest (by decide) hday hends
  have hreadMonth := readNumber?_padded ('-' :: (Digits.padded '0' 2 d.day ++ rest))
    (by decide) hmonth rfl
  have hreadYear := readYear?_yearChars d.year ('-' :: (Digits.padded '0' 2 d.month ++
    '-' :: (Digits.padded '0' 2 d.day ++ rest))) rfl
  simp only [readDate?, Date.toChars_append, hreadYear, hreadMonth, hreadDay, readChar?_cons,
    Date.ofParts?_self, Option.bind_eq_bind, Option.bind_some]
  rfl

/-! ## Times of day -/

namespace TimeOfDay

variable {t : TimeOfDay}

theorem hour_lt (t : TimeOfDay) : t.hour < 24 := Nat.div_lt_of_lt_mul t.seconds_lt

theorem minute_lt (t : TimeOfDay) : t.minute < 60 := Nat.mod_lt _ (by decide)

theorem second_le (t : TimeOfDay) : t.second ≤ 60 := by
  have hlt := t.nanos_lt
  rw [second]
  simp only [nanosPerSecond] at *
  omega

theorem toChars_append (t : TimeOfDay) (rest : List Char) : t.toChars ++ rest =
    Digits.padded '0' 2 t.hour ++ ':' :: (Digits.padded '0' 2 t.minute ++
      ':' :: (Digits.padded '0' 2 t.second ++ rest)) := by
  simp [toChars]

/-- What the clock shows is read back where no digit follows it. -/
theorem readClock?_toChars (t : TimeOfDay) (rest : List Char)
    (hends : rest.head?.any Char.isDigit = false) :
    readClock? (t.toChars ++ rest) = some ((t.hour, t.minute, t.second), rest) := by
  have hhour : t.hour < tenPow 2 := Nat.lt_trans t.hour_lt (by decide)
  have hminute : t.minute < tenPow 2 := Nat.lt_trans t.minute_lt (by decide)
  have hsecond : t.second < tenPow 2 := Nat.lt_of_le_of_lt t.second_le (by decide)
  have hreadSecond := readNumber?_padded rest (by decide) hsecond hends
  have hreadMinute := readNumber?_padded (':' :: (Digits.padded '0' 2 t.second ++ rest))
    (by decide) hminute rfl
  have hreadHour := readNumber?_padded (':' :: (Digits.padded '0' 2 t.minute ++
    ':' :: (Digits.padded '0' 2 t.second ++ rest))) (by decide) hhour rfl
  simp only [readClock?, toChars_append, hreadHour, hreadMinute, hreadSecond, readChar?_cons,
    Option.bind_eq_bind, Option.bind_some]
  rfl

/-- A leap second that follows no 59th second. The clock shows the second after it instead. -/
def IsStray (t : TimeOfDay) : Prop := t.isLeap = true ∧ t.seconds % 60 ≠ 59

instance : Decidable t.IsStray := inferInstanceAs (Decidable (_ ∧ _))

/-- A stray leap second does not end a day. -/
theorem next_lt_of_isStray (h : t.IsStray) : t.seconds + 1 < secondsPerDay := by
  have hseconds := t.seconds_lt
  have hlast := h.2
  simp only [secondsPerDay] at *
  omega

theorem fraction_lt (t : TimeOfDay) : t.fraction < nanosPerSecond := Nat.mod_lt _ (by decide)

theorem fraction_lt_leap (t : TimeOfDay) : t.fraction < 2 * nanosPerSecond :=
  Nat.lt_of_lt_of_le t.fraction_lt (by decide)

/-- A leap second counts as one second more on the clock. -/
theorem clock_cases (t : TimeOfDay) :
    t.isLeap = true ∧ t.second = t.seconds % 60 + 1 ∧ t.nanos = nanosPerSecond + t.fraction ∨
      t.isLeap = false ∧ t.second = t.seconds % 60 ∧ t.nanos = t.fraction := by
  have hnanos := t.nanos_lt
  by_cases hleap : nanosPerSecond ≤ t.nanos
  · have hdiv : t.nanos / nanosPerSecond = 1 := Nat.div_eq_of_lt_le (by omega) (by omega)
    refine .inl ⟨decide_eq_true hleap, by rw [second, hdiv], ?_⟩
    rw [fraction, Nat.mod_eq_sub_mod hleap, Nat.mod_eq_of_lt (by omega)]
    omega
  · have hlt := Nat.lt_of_not_le hleap
    refine .inr ⟨decide_eq_false hleap, ?_, (Nat.mod_eq_of_lt hlt).symm⟩
    rw [second, Nat.div_eq_of_lt hlt]
    rfl

/-- The time without the fraction of its second; a leap second stays one, stray or not. -/
def toSecond (t : TimeOfDay) : TimeOfDay where
  seconds := t.seconds
  nanos := t.nanos - t.fraction
  seconds_lt := t.seconds_lt
  nanos_lt := Nat.sub_lt_of_lt t.nanos_lt

theorem toSecond_eq_self (hwhole : t.fraction = 0) : t.toSecond = t := by
  simp only [toSecond, hwhole, Nat.sub_zero]

theorem fraction_toSecond (t : TimeOfDay) : t.toSecond.fraction = 0 :=
  Nat.mod_eq_zero_of_dvd (Nat.dvd_sub_mod t.nanos)

theorem second_toSecond (t : TimeOfDay) : t.toSecond.second = t.second :=
  congrArg (t.seconds % 60 + ·) Nat.div_eq_sub_mod_div.symm

theorem isLeap_toSecond (t : TimeOfDay) : t.toSecond.isLeap = t.isLeap := by
  rcases t.clock_cases with ⟨hleap, -, hnanos⟩ | ⟨hleap, -, hnanos⟩
  · rw [hleap]
    exact decide_eq_true (show nanosPerSecond ≤ t.nanos - t.fraction by omega)
  · rw [hleap]
    refine decide_eq_false (show ¬ nanosPerSecond ≤ t.nanos - t.fraction from ?_)
    simp only [nanosPerSecond] at *
    omega

theorem isStray_toSecond : t.toSecond.IsStray ↔ t.IsStray := by
  rw [IsStray, isLeap_toSecond]
  rfl

theorem toChars_toSecond (t : TimeOfDay) : t.toSecond.toChars = t.toChars := by
  rw [toChars, toChars, second_toSecond]
  rfl

/-- The time that the clock shows: a stray leap second shows as the second after it, with the same
fraction, and every other time as it is. -/
def shown (t : TimeOfDay) : TimeOfDay :=
  if h : t.IsStray then ⟨t.seconds + 1, t.fraction, next_lt_of_isStray h, t.fraction_lt_leap⟩ else t

theorem shown_eq_self (h : ¬ t.IsStray) : t.shown = t := dif_neg h

theorem shown_of_isStray (h : t.IsStray) :
    t.shown.seconds = t.seconds + 1 ∧ t.shown.nanos = t.fraction := by
  rw [shown, dif_pos h]
  exact ⟨rfl, rfl⟩

theorem ofParts?_of_eq {hour minute second fraction : Nat} (leap : Nat) (hhour : hour < 24)
    (hminute : minute < 60) (hsecond : second ≤ 60) (hfraction : fraction < nanosPerSecond)
    (hleap : leap = if second = 60 then 1 else 0)
    (hseconds : t.seconds = hour * 3600 + minute * 60 + (second - leap))
    (hnanos : t.nanos = leap * nanosPerSecond + fraction) :
    ofParts? hour minute second fraction = some t := by
  simp only [ofParts?, ← hleap, ← hseconds, ← hnanos]
  exact dif_pos ⟨hhour, hminute, hsecond, hfraction, t.seconds_lt, t.nanos_lt⟩

/-- Hour, minute, second and fraction on the clock make the time that it shows. -/
theorem ofParts?_shown (t : TimeOfDay) :
    ofParts? t.hour t.minute t.second t.fraction = some t.shown := by
  have hclock : t.seconds = t.hour * 3600 + t.minute * 60 + t.seconds % 60 := by
    rw [hour, minute]
    omega
  rcases t.clock_cases with ⟨hleap, hsecond, hnanos⟩ | ⟨hleap, hsecond, hnanos⟩
  · by_cases hlast : t.seconds % 60 = 59
    · rw [shown_eq_self fun h => h.2 hlast]
      refine ofParts?_of_eq 1 t.hour_lt t.minute_lt t.second_le t.fraction_lt ?_ ?_ ?_
      · rw [hsecond, hlast, if_pos rfl]
      · omega
      · omega
    · have hsixty : t.second ≠ 60 := by omega
      obtain ⟨hseconds, hfraction⟩ := shown_of_isStray ⟨hleap, hlast⟩
      refine ofParts?_of_eq 0 t.hour_lt t.minute_lt t.second_le t.fraction_lt ?_ ?_ ?_
      · rw [if_neg hsixty]
      · omega
      · rw [hfraction, Nat.zero_mul, Nat.zero_add]
  · have hsixty : t.second ≠ 60 := by omega
    rw [shown_eq_self fun h => Bool.false_ne_true (hleap.symm.trans h.1)]
    refine ofParts?_of_eq 0 t.hour_lt t.minute_lt t.second_le t.fraction_lt ?_ ?_ ?_
    · rw [if_neg hsixty]
    · omega
    · rw [hnanos, Nat.zero_mul, Nat.zero_add]

/-- Without the fraction, what is read is what the clock shows of the time to the second. -/
theorem ofParts?_toSecond (t : TimeOfDay) :
    ofParts? t.hour t.minute t.second 0 = some t.toSecond.shown := by
  have hshown := t.toSecond.ofParts?_shown
  rwa [second_toSecond, fraction_toSecond] at hshown

/-- A leap second that is read follows a 59th second. -/
theorem not_isStray_of_ofParts? {hour minute second fraction : Nat}
    (h : ofParts? hour minute second fraction = some t) : ¬ t.IsStray := by
  simp only [ofParts?, Option.dite_none_right_eq_some] at h
  obtain ⟨⟨_, _, _, hfraction, _⟩, h⟩ := h
  obtain rfl := Option.some.inj h
  rintro ⟨hleap, hlast⟩
  replace hleap := of_decide_eq_true hleap
  by_cases hsixty : second = 60
  · simp only [hsixty, if_true] at hlast
    omega
  · simp only [hsixty, if_false] at hleap
    omega

end TimeOfDay

/-! ## Fractions of a second -/

theorem readFraction?_fixed {width : Nat} (hpos : 0 < width) (hle : width ≤ 9)
    (h : n < tenPow width) :
    readFraction? ('.' :: Digits.fixed width n) = some (n * tenPow (9 - width), []) := by
  have hlength := Digits.length_fixed width n
  have htake : Digits.takeUpTo 9 (Digits.fixed width n) = (Digits.fixed width n, []) := by
    have hread : Digits.takeUpTo 9 (Digits.fixed width n ++ []) = (Digits.fixed width n, []) :=
      Digits.takeUpTo_append_of_ends (fun _ => Digits.isDigit_of_mem_fixed) (by omega) rfl
    rwa [List.append_nil] at hread
  have hsome : (Digits.fixed width n).isEmpty = false := by
    rw [List.isEmpty_eq_false_iff, ← List.length_pos_iff, hlength]
    exact hpos
  have hvalue : Digits.value (Digits.fixed width n) = n := by
    rw [Digits.value, Digits.ofDigitChars_fixed, Nat.zero_mul, Nat.zero_add, Nat.mod_eq_of_lt h]
  simp only [readFraction?, htake, hsome, hvalue, hlength, Bool.false_eq_true, if_false]
  rfl

theorem head?_fractionChars (nanos : Nat) :
    (fractionChars nanos).head?.any Char.isDigit = false := by
  unfold fractionChars
  split
  · rfl
  · split
    · rfl
    · split <;> rfl

/-- A fraction is read back, in as many places as it has. -/
theorem readFraction?_fractionChars {nanos : Nat} (h : nanos < nanosPerSecond) :
    readFraction? (fractionChars nanos) = some (nanos, []) := by
  have hthree : tenPow 3 = 1000 := rfl
  have hsix : tenPow 6 = 1000000 := rfl
  have hnine : tenPow 9 = nanosPerSecond := rfl
  rw [nanosPerSecond] at h hnine
  unfold fractionChars
  split
  · rename_i hzero
    rw [hzero]
    rfl
  · split
    · rename_i hmillis
      rw [readFraction?_fixed (by decide) (by decide) (by omega), hsix,
        Nat.div_mul_cancel (Nat.dvd_of_mod_eq_zero hmillis)]
    · split
      · rename_i hmicros
        rw [readFraction?_fixed (by decide) (by decide) (by omega), hthree,
          Nat.div_mul_cancel (Nat.dvd_of_mod_eq_zero hmicros)]
      · rw [readFraction?_fixed (by decide) (by decide) (by omega), Nat.sub_self, tenPow_zero,
          Nat.mul_one]

/-! ## Instants -/

/-- The characters of the written form. -/
def IsIso (c : Char) : Prop := c.isDigit = true ∨ c ∈ ['-', '+', ':', 'T']

theorem IsIso.isBlank (h : IsIso c) : Text.isBlank c = false := by
  rcases h with hdigit | hmark
  · exact Text.isBlank_digit hdigit
  · simp only [List.mem_cons, List.not_mem_nil, or_false] at hmark
    rcases hmark with rfl | rfl | rfl | rfl <;> rfl

namespace DateTime

variable {d : DateTime}

/-- The instant without the fraction of its second; a leap second stays one, stray or not. -/
def toSecond (d : DateTime) : DateTime := { d with time := d.time.toSecond }

/-- The instant that the written form shows: a stray leap second shows as the second after it, and
every other instant as it is. -/
def shown (d : DateTime) : DateTime := { d with time := d.time.shown }

theorem toSecond_eq_self (hwhole : d.time.fraction = 0) : d.toSecond = d := by
  rw [toSecond, TimeOfDay.toSecond_eq_self hwhole]

theorem toText_toSecond (d : DateTime) : d.toSecond.toText = d.toText := by
  simp only [toText, toChars, toSecond, TimeOfDay.toChars_toSecond]

theorem shown_eq_self (hstray : ¬ d.time.IsStray) : d.shown = d := by
  rw [shown, TimeOfDay.shown_eq_self hstray]

/-- A leap second in the middle of a minute, without a fraction. -/
def strayLeapSecond : DateTime where
  date := (Date.ofParts? 2024 1 1).get rfl
  time := ⟨43230, nanosPerSecond, by decide, by decide⟩

example : strayLeapSecond.toText = "2024-01-01T12:00:31" := by decide

theorem ofChars?_toChars (d : DateTime) : ofChars? d.toChars = some d.toSecond.shown := by
  have hdate := readDate?_toChars d.date ('T' :: d.time.toChars) rfl
  have hclock := d.time.readClock?_toChars [] rfl
  rw [List.append_nil] at hclock
  simp only [toChars, List.append_assoc, List.singleton_append, ofChars?, hdate, hclock,
    readChar?_cons, TimeOfDay.ofParts?_toSecond, Option.bind_eq_bind, Option.bind_some]
  rfl

theorem isIso_of_mem_toChars (d : DateTime) : ∀ c ∈ d.toChars, IsIso c := by
  have hpadded (width n : Nat) : ∀ c ∈ Digits.padded '0' width n, IsIso c :=
    fun c hc => .inl (Digits.isDigit_of_mem_padded hc)
  have hmark {c : Char} (hc : c ∈ ['-', '+', ':', 'T']) : ∀ x ∈ [c], IsIso x := by
    rintro x hx
    rw [List.mem_singleton.mp hx]
    exact .inr hc
  have hyear : ∀ c ∈ yearChars d.date.year, IsIso c := by
    rw [yearChars]
    split
    · exact hpadded _ _
    · refine List.forall_mem_cons.mpr ⟨?_, hpadded _ _⟩
      split
      · exact .inr (by decide)
      · exact .inr (by decide)
  simp only [toChars, Date.toChars, TimeOfDay.toChars, List.forall_mem_append]
  exact ⟨⟨⟨⟨⟨⟨hyear, hmark (by decide)⟩, hpadded _ _⟩, hmark (by decide)⟩, hpadded _ _⟩,
    hmark (by decide)⟩, ⟨⟨⟨hpadded _ _, hmark (by decide)⟩, hpadded _ _⟩, hmark (by decide)⟩,
    hpadded _ _⟩

theorem exists_isDigit (d : DateTime) : ∃ c ∈ d.toChars, c.isDigit = true := by
  obtain ⟨c, cs, hcs, hdigit⟩ := Digits.head?_padded 2 d.date.day (['T'] ++ d.time.toChars)
  refine ⟨c, ?_, hdigit⟩
  rw [toChars, List.append_assoc, Date.toChars, List.append_assoc, hcs]
  exact List.mem_append_right _ List.mem_cons_self

/-- The date comes before the time of day. -/
theorem exists_toChars_eq (d : DateTime) : ∃ c cs, d.toChars = c :: cs ∧ 'T' ∈ cs := by
  have hne : d.date.toChars ≠ [] := by simp [Date.toChars]
  obtain ⟨c, cs, hcs⟩ := List.exists_cons_of_ne_nil hne
  exact ⟨c, cs ++ ['T'] ++ d.time.toChars, by rw [toChars, hcs]; rfl, by simp⟩

/-- The written form is read back as the instant that it shows, without the fraction. -/
theorem ofText?_toText (d : DateTime) : ofText? d.toText = some d.toSecond.shown := by
  have htrim : Text.trimChars d.toChars = d.toChars :=
    Text.trimChars_eq_self fun c hc => (d.isIso_of_mem_toChars c hc).isBlank
  simp only [ofText?, toText, String.toList_ofList, htrim, ofChars?_toChars]
  rfl

/-- The form with the fraction is read back as the instant that it shows. -/
theorem ofExactText?_toExactText (d : DateTime) : ofExactText? d.toExactText = some d.shown := by
  have hdate := readDate?_toChars d.date
    ('T' :: (d.time.toChars ++ fractionChars d.time.fraction)) rfl
  have hclock := d.time.readClock?_toChars _ (head?_fractionChars d.time.fraction)
  have hfraction := readFraction?_fractionChars d.time.fraction_lt
  have htext : d.toExactText.toList =
      d.date.toChars ++ 'T' :: (d.time.toChars ++ fractionChars d.time.fraction) := by
    simp [toExactText, toChars]
  simp only [ofExactText?, htext, hdate, hclock, hfraction, readChar?_cons,
    TimeOfDay.ofParts?_shown, Option.bind_eq_bind, Option.bind_some]
  rfl

theorem not_isStray_of_ofExactText? {text : String} (h : ofExactText? text = some d) :
    ¬ d.time.IsStray := by
  simp only [ofExactText?, Option.bind_eq_bind, Option.bind_eq_some_iff] at h
  obtain ⟨_, -, _, -, _, -, _, -, time, htime, h⟩ := h
  split at h
  · cases h
    exact TimeOfDay.not_isStray_of_ofParts? htime
  · cases h

end DateTime

end Calendar

end ComputedFields
