import ComputedFields.Proofs.Calendar.Iso
import ComputedFields.Proofs.Calendar.Spans
import Mathlib.Data.List.DropRight

/-!
# Written spans

The written form of a span is made of parts: a sign, hours, minutes, and seconds with a fraction.
It leaves out what is zero, as long as something is left, and tells the milliseconds of the span and
nothing else.
-/

namespace ComputedFields

/-! ## Digits without the zeros that end them -/

namespace Digits

variable {ds : List Char} {c : Char} {k n width : Nat}

theorem ofDigitChars_zeros (k n : Nat) :
    Nat.ofDigitChars 10 (List.replicate k '0') n = n * tenPow k := by
  induction k generalizing n with
  | zero => rw [List.replicate_zero, Nat.ofDigitChars_nil, tenPow_zero, Nat.mul_one]
  | succ k ih =>
    rw [List.replicate_succ, Nat.ofDigitChars_cons, ih, tenPow_succ, Nat.sub_self, Nat.add_zero,
      Nat.mul_comm 10 n, Nat.mul_assoc, Nat.mul_comm 10]

/-- The zeros at the end of digits only move the point. -/
theorem value_rdropWhile_zeros (ds : List Char) :
    value (ds.rdropWhile (· == '0')) * tenPow (ds.length - (ds.rdropWhile (· == '0')).length) =
      value ds := by
  have hsplit : ds.rdropWhile (· == '0') ++ ds.rtakeWhile (· == '0') = ds :=
    List.rdropWhile_append_rtakeWhile
  have hzeros : ds.rtakeWhile (· == '0') =
      List.replicate (ds.length - (ds.rdropWhile (· == '0')).length) '0' := by
    refine List.eq_replicate_iff.mpr ⟨?_, fun c hc => ?_⟩
    · have hlength := congrArg List.length hsplit
      rw [List.length_append] at hlength
      omega
    · simpa using List.mem_rtakeWhile_imp hc
  conv_rhs => rw [← hsplit, hzeros]
  rw [value, value, Nat.ofDigitChars_append, ofDigitChars_zeros]

end Digits

namespace Calendar.Duration

variable {ds cs rest : List Char} {total n : Nat}

/-! ## Parts -/

/-- What is written of a span, part by part. A part that is left out is none. -/
structure Spelling where
  negative : Bool
  hours : Option Nat
  minutes : Option Nat
  /-- The whole seconds, and the digits after the point. -/
  seconds : Option (Nat × List Char)

namespace Spelling

/-- A part: a number and the letter of its unit. -/
def part (unit : Char) : Option Nat → List Char
  | none => []
  | some n => Nat.toDigits 10 n ++ [unit]

/-- The last part: a number, a point with digits after it unless there are none, and the letter. -/
def secondsPart : Option (Nat × List Char) → List Char
  | none => []
  | some (n, []) => Nat.toDigits 10 n ++ ['S']
  | some (n, c :: cs) => Nat.toDigits 10 n ++ '.' :: (c :: cs) ++ ['S']

/-- All parts. -/
def partsChars (t : Spelling) : List Char :=
  part 'H' t.hours ++ part 'M' t.minutes ++ secondsPart t.seconds

/-- The text: a minus sign or none, the letters that mark a span of time, and the parts. -/
def toChars (t : Spelling) : List Char :=
  (if t.negative then ['-'] else []) ++ ['P', 'T'] ++ t.partsChars

/-- The milliseconds that digits after the point stand for, the first for hundreds. -/
def fractionMillis (ds : List Char) : Nat := Digits.value ds * tenPow (3 - ds.length)

theorem fractionMillis_nil : fractionMillis [] = 0 := rfl

/-- The milliseconds that the parts stand for. -/
def millis (t : Spelling) : Nat :=
  t.hours.getD 0 * 3600000 + t.minutes.getD 0 * 60000 +
    t.seconds.elim 0 fun part => part.1 * 1000 + fractionMillis part.2

/-- There is a part. Hours and minutes are not zero, a zero of seconds without a fraction stands
alone, minutes and seconds are below sixty, and a fraction has at most three digits, the last one not
zero. -/
structure Proper (t : Spelling) : Prop where
  exists_part : t.hours ≠ none ∨ t.minutes ≠ none ∨ t.seconds ≠ none
  hours_pos : ∀ n ∈ t.hours, 0 < n
  minutes_pos : ∀ n ∈ t.minutes, 0 < n
  minutes_lt : ∀ n ∈ t.minutes, n < 60
  seconds_lt : ∀ n ds, (n, ds) ∈ t.seconds → n < 60
  zero_alone : (0, []) ∈ t.seconds → t.hours = none ∧ t.minutes = none
  fraction_digits : ∀ n ds, (n, ds) ∈ t.seconds → ∀ c ∈ ds, c.isDigit = true
  fraction_length : ∀ n ds, (n, ds) ∈ t.seconds → ds.length ≤ 3
  fraction_end : ∀ n ds, (n, ds) ∈ t.seconds → ds.getLast? ≠ some '0'

end Spelling

open Spelling

/-! ## The fraction -/

theorem fractionDigits_eq (n : Nat) :
    fractionDigits n = (Digits.padded '0' 3 n).rdropWhile (· == '0') := rfl

theorem isDigit_of_mem_fractionDigits {c : Char} (h : c ∈ fractionDigits n) : c.isDigit = true :=
  Digits.isDigit_of_mem_padded ((List.rdropWhile_prefix _ _).subset (fractionDigits_eq n ▸ h))

theorem length_fractionDigits_le (h : n < 1000) : (fractionDigits n).length ≤ 3 := by
  have hprefix : fractionDigits n <+: Digits.padded '0' 3 n := List.rdropWhile_prefix _ _
  have hlength : (Digits.padded '0' 3 n).length = 3 := Digits.length_padded (by decide) h
  exact hlength ▸ hprefix.length_le

theorem getLast?_fractionDigits (n : Nat) : (fractionDigits n).getLast? ≠ some '0' := by
  intro hlast
  have hnot := Text.getLast?_rdropWhile (· == '0') (Digits.padded '0' 3 n) '0' hlast
  simp at hnot

theorem fractionMillis_fractionDigits (h : n < 1000) : fractionMillis (fractionDigits n) = n := by
  have hvalue := Digits.value_rdropWhile_zeros (Digits.padded '0' 3 n)
  have hlength : (Digits.padded '0' 3 n).length = 3 := Digits.length_padded (by decide) h
  rw [hlength, Digits.value_padded] at hvalue
  exact hvalue

theorem fractionDigits_ne_nil (h : n < 1000) (hn : n ≠ 0) : fractionDigits n ≠ [] := by
  intro hnil
  have hvalue := fractionMillis_fractionDigits h
  rw [hnil] at hvalue
  exact hn hvalue.symm

/-! ## The parts of a span -/

/-- A number that is left out when it is zero. -/
def unlessZero (n : Nat) : Option Nat := if n = 0 then none else some n

theorem part_unlessZero (unit : Char) (n : Nat) :
    part unit (unlessZero n) = if n = 0 then [] else Nat.toDigits 10 n ++ [unit] := by
  rw [unlessZero]
  split <;> rfl

theorem getD_unlessZero (n : Nat) : (unlessZero n).getD 0 = n := by
  rw [unlessZero]
  split
  · exact Eq.symm ‹_›
  · rfl

theorem mem_unlessZero {m : Nat} : m ∈ unlessZero n ↔ m = n ∧ n ≠ 0 := by
  rw [unlessZero]
  split <;> simp_all [eq_comm]

theorem unlessZero_eq_none : unlessZero n = none ↔ n = 0 := by
  rw [unlessZero]
  split <;> simp_all

/-- Seconds and thousandths, left out when both are zero beside another part. -/
def lastPart (alone : Bool) (seconds fraction : Nat) : Option (Nat × List Char) :=
  if fraction ≠ 0 then some (seconds, fractionDigits fraction)
  else if seconds ≠ 0 || alone then some (seconds, [])
  else none

section

variable {alone : Bool} {seconds fraction : Nat}

theorem secondsPart_lastPart (h : fraction < 1000) :
    secondsPart (lastPart alone seconds fraction) =
      if fraction ≠ 0 then Nat.toDigits 10 seconds ++ ['.'] ++ fractionDigits fraction ++ ['S']
      else if seconds ≠ 0 || alone then Nat.toDigits 10 seconds ++ ['S']
      else [] := by
  rw [lastPart]
  split
  · rename_i hfraction
    obtain ⟨c, cs, hcs⟩ := List.exists_cons_of_ne_nil (fractionDigits_ne_nil h hfraction)
    rw [hcs]
    simp [secondsPart]
  · split <;> rfl

theorem millis_lastPart (h : fraction < 1000) :
    ((lastPart alone seconds fraction).elim 0 fun part =>
      part.1 * 1000 + fractionMillis part.2) = seconds * 1000 + fraction := by
  rw [lastPart]
  split
  · rw [Option.elim_some, fractionMillis_fractionDigits h]
  · rename_i hfraction
    have hzero : fraction = 0 := not_ne_iff.mp hfraction
    split
    · rw [Option.elim_some, fractionMillis_nil, hzero]
    · rename_i hseconds
      have hnone : seconds = 0 ∧ alone = false := by simpa using hseconds
      rw [hzero, hnone.1]
      rfl

theorem mem_lastPart (h : (n, ds) ∈ lastPart alone seconds fraction) :
    n = seconds ∧ (fraction ≠ 0 ∧ ds = fractionDigits fraction ∨
      ds = [] ∧ (seconds ≠ 0 ∨ alone = true)) := by
  rw [lastPart] at h
  split at h
  · rename_i hfraction
    cases h
    exact ⟨rfl, .inl ⟨hfraction, rfl⟩⟩
  · split at h
    · rename_i hseconds
      cases h
      exact ⟨rfl, .inr ⟨rfl, by simpa using hseconds⟩⟩
    · cases h

theorem lastPart_ne_none : lastPart true seconds fraction ≠ none := by
  rw [lastPart]
  split <;> simp

end

/-- The parts that are written for a number of milliseconds. -/
def spelled (negative : Bool) (total : Nat) : Spelling where
  negative
  hours := unlessZero (total / 3600000)
  minutes := unlessZero (total / 60000 % 60)
  seconds :=
    lastPart (total / 3600000 = 0 && total / 60000 % 60 = 0) (total / 1000 % 60) (total % 1000)

theorem negative_spelled (negative : Bool) (total : Nat) :
    (spelled negative total).negative = negative := rfl

theorem partsChars_spelled (negative : Bool) (total : Nat) :
    (spelled negative total).partsChars = parts total := by
  rw [partsChars, spelled, part_unlessZero, part_unlessZero,
    secondsPart_lastPart (Nat.mod_lt _ (by decide)), parts]

theorem toText_eq (d : Duration) :
    d.toText = String.ofList (spelled (d.millis < 0) d.millis.natAbs).toChars := by
  simp only [toText, toChars, partsChars_spelled, negative_spelled, decide_eq_true_eq]

theorem millis_spelled (negative : Bool) (total : Nat) :
    (spelled negative total).millis = total := by
  rw [Spelling.millis, spelled]
  simp only [getD_unlessZero, millis_lastPart (Nat.mod_lt total (by decide))]
  omega

theorem proper_spelled (negative : Bool) (total : Nat) : (spelled negative total).Proper where
  exists_part := by
    simp only [spelled, ne_eq, unlessZero_eq_none]
    by_cases hhours : total / 3600000 = 0
    · by_cases hminutes : total / 60000 % 60 = 0
      · refine .inr (.inr ?_)
        simpa [hhours, hminutes] using lastPart_ne_none
      · exact .inr (.inl hminutes)
    · exact .inl hhours
  hours_pos := fun n hn => by
    obtain ⟨rfl, hne⟩ := mem_unlessZero.mp hn
    exact Nat.pos_of_ne_zero hne
  minutes_pos := fun n hn => by
    obtain ⟨rfl, hne⟩ := mem_unlessZero.mp hn
    exact Nat.pos_of_ne_zero hne
  minutes_lt := fun n hn => by
    obtain ⟨rfl, -⟩ := mem_unlessZero.mp hn
    exact Nat.mod_lt _ (by decide)
  seconds_lt := fun n ds hmem => by
    obtain ⟨rfl, -⟩ := mem_lastPart hmem
    exact Nat.mod_lt _ (by decide)
  zero_alone := fun hmem => by
    obtain ⟨hzero, ⟨hfraction, hdigits⟩ | ⟨-, halone⟩⟩ := mem_lastPart hmem
    · exact absurd hdigits.symm (fractionDigits_ne_nil (Nat.mod_lt _ (by decide)) hfraction)
    · have hboth := halone.resolve_left (not_not_intro hzero.symm)
      simpa [spelled, unlessZero_eq_none] using hboth
  fraction_digits := fun n ds hmem c hc => by
    obtain ⟨-, ⟨-, rfl⟩ | ⟨rfl, -⟩⟩ := mem_lastPart hmem
    · exact isDigit_of_mem_fractionDigits hc
    · cases hc
  fraction_length := fun n ds hmem => by
    obtain ⟨-, ⟨-, rfl⟩ | ⟨rfl, -⟩⟩ := mem_lastPart hmem
    · exact length_fractionDigits_le (Nat.mod_lt _ (by decide))
    · exact Nat.zero_le 3
  fraction_end := fun n ds hmem => by
    obtain ⟨-, ⟨-, rfl⟩ | ⟨rfl, -⟩⟩ := mem_lastPart hmem
    · exact getLast?_fractionDigits _
    · simp

/-! ## Reading back -/

/-- The milliseconds of a unit. -/
def unitMillis (unit : Char) : Nat :=
  if unit = 'H' then 3600000 else if unit = 'M' then 60000 else 1000

/-- The milliseconds that parts come to. `number` is what the digits come to that have been read of
the part that is being read. -/
def readParts (number : Nat) : List Char → Nat
  | [] => 0
  | c :: cs =>
    if c.isDigit then readParts (10 * number + (c.toNat - '0'.toNat)) cs
    else if c = '.' then number * 1000 + fractionMillis (cs.takeWhile Char.isDigit)
    else number * unitMillis c + readParts 0 cs

theorem readParts_toDigits (n : Nat) (rest : List Char) :
    readParts 0 (Nat.toDigits 10 n ++ rest) = readParts n rest := by
  have hrun (ds : List Char) (number : Nat) (hdigits : ∀ c ∈ ds, c.isDigit = true) :
      readParts number (ds ++ rest) = readParts (Nat.ofDigitChars 10 ds number) rest := by
    induction ds generalizing number with
    | nil => rw [List.nil_append, Nat.ofDigitChars_nil]
    | cons c cs ih =>
      obtain ⟨hc, hcs⟩ := List.forall_mem_cons.mp hdigits
      rw [List.cons_append, readParts, if_pos hc, ih _ hcs, Nat.ofDigitChars_cons]
  rw [hrun _ 0 fun c hc => Nat.isDigit_of_mem_toDigits (by decide) (by decide) hc,
    Nat.ofDigitChars_ten_toDigits]

theorem readParts_cons_unit {unit : Char} (hdigit : unit.isDigit = false) (hpoint : unit ≠ '.') :
    readParts n (unit :: rest) = n * unitMillis unit + readParts 0 rest := by
  rw [readParts, hdigit, if_neg Bool.false_ne_true, if_neg hpoint]

theorem readParts_part {unit : Char} (hdigit : unit.isDigit = false) (hpoint : unit ≠ '.')
    (n? : Option Nat) (rest : List Char) :
    readParts 0 (part unit n? ++ rest) = n?.getD 0 * unitMillis unit + readParts 0 rest := by
  cases n? with
  | none => simp [part]
  | some n =>
    rw [part, List.append_assoc, readParts_toDigits]
    exact readParts_cons_unit hdigit hpoint

theorem readParts_secondsPart (part? : Option (Nat × List Char))
    (hdigits : ∀ n ds, (n, ds) ∈ part? → ∀ c ∈ ds, c.isDigit = true) :
    readParts 0 (secondsPart part?) =
      part?.elim 0 fun part => part.1 * 1000 + fractionMillis part.2 := by
  cases part? with
  | none => rfl
  | some part =>
    obtain ⟨n, ds⟩ := part
    have hds := hdigits n ds rfl
    cases ds with
    | nil =>
      rw [secondsPart, readParts_toDigits, Option.elim_some, fractionMillis_nil]
      exact readParts_cons_unit rfl (by decide)
    | cons c cs =>
      -- the letter ends the run of digits after the point
      have hrun : ((c :: cs) ++ ['S']).takeWhile Char.isDigit = c :: cs := by
        rw [List.takeWhile_append_of_pos hds]
        simp
      rw [secondsPart, List.append_assoc, readParts_toDigits, List.cons_append, readParts, hrun]
      rfl

/-- The parts come to the milliseconds that they stand for. -/
theorem readParts_partsChars {t : Spelling} (h : t.Proper) : readParts 0 t.partsChars = t.millis := by
  rw [partsChars, List.append_assoc, readParts_part rfl (by decide),
    readParts_part rfl (by decide), readParts_secondsPart _ h.fraction_digits, ← Nat.add_assoc]
  rfl

/-- The milliseconds that the text of a span tells. -/
def readText : List Char → Int
  | '-' :: _ :: _ :: cs => -(readParts 0 cs : Int)
  | _ :: _ :: cs => readParts 0 cs
  | _ => 0

theorem readText_toChars {t : Spelling} (h : t.Proper) :
    readText t.toChars = if t.negative then -(t.millis : Int) else t.millis := by
  have hsigned : readText ('-' :: 'P' :: 'T' :: t.partsChars) = -(readParts 0 t.partsChars : Int) :=
    rfl
  have hplain : readText ('P' :: 'T' :: t.partsChars) = readParts 0 t.partsChars := rfl
  rw [toChars, ← readParts_partsChars h]
  cases t.negative with
  | true => exact hsigned
  | false => exact hplain

theorem readText_toText (d : Duration) : readText d.toText.toList = d.millis := by
  rw [toText_eq, String.toList_ofList, readText_toChars (proper_spelled _ _),
    negative_spelled, millis_spelled]
  split
  · rename_i hnegative
    have hless : d.millis < 0 := of_decide_eq_true hnegative
    omega
  · rename_i hnegative
    have hless : ¬ d.millis < 0 := mt decide_eq_true hnegative
    omega

/-- The text of a span is a minus sign, which it has if and only if the span has less than zero
milliseconds, the letters that mark a span, and proper parts that stand for the milliseconds without
their sign. Spans print alike if and only if they have the same milliseconds. -/
theorem toText_faithful (d : Duration) :
    (∃ t : Spelling, d.toText = String.ofList t.toChars ∧ t.Proper ∧
      (t.negative = true ↔ d.millis < 0) ∧ t.millis = d.millis.natAbs) ∧
    ∀ d' : Duration, d'.toText = d.toText ↔ d'.millis = d.millis := by
  refine ⟨⟨spelled (d.millis < 0) d.millis.natAbs, toText_eq d, proper_spelled _ _,
    decide_eq_true_iff, millis_spelled _ _⟩, fun d' => ⟨fun htext => ?_, fun hmillis => ?_⟩⟩
  · rw [← readText_toText, htext, readText_toText]
  · rw [toText_eq, hmillis, ← toText_eq]

example : toText ⟨-5400500000000, by decide, by decide⟩ = "-PT1H30M0.5S" := by cbv

end Calendar.Duration

end ComputedFields
