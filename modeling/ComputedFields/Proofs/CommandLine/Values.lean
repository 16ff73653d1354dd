import ComputedFields.CommandLine.Specification
import ComputedFields.Proofs.Calendar.Iso
import ComputedFields.Proofs.Library.Coercions

/-!
# Values read back from their texts

The text of a number, a Boolean or a date is understood as that value again, both where an operator
or a function needs one and as the value of an option, where the kind of value is found out from the
text. Of a date the fraction of its second is lost, and a stray leap second, whose text is that of
the second after it, is understood as that second.
-/

namespace ComputedFields

/-! ## Texts with digits are no words -/

namespace Text

theorem toLower_of_isDigit {c : Char} (h : c.isDigit = true) : c.toLower = c := by
  have hrange : '0'.val ≤ c.val ∧ c.val ≤ '9'.val := by simpa [Char.isDigit] using h
  have hlow : ¬ 'A'.val ≤ '9'.val := by decide
  exact dif_neg fun hupper => hlow (UInt32.le_trans hupper.1 hrange.2)

/-- A text with a digit in it is not a word without digits. -/
theorem sameIgnoringCase_of_isDigit {c : Char} {cs : List Char} {word : String} (h : c ∈ cs)
    (hdigit : c.isDigit = true) (hword : ∀ x ∈ word.toList, x.toLower.isDigit = false) :
    sameIgnoringCase (String.ofList cs) word = false := by
  rw [sameIgnoringCase, String.toList_ofList]
  refine beq_eq_false_iff_ne.mpr fun heq => ?_
  have hmem : c.toLower ∈ cs.map Char.toLower := List.mem_map_of_mem h
  rw [heq] at hmem
  obtain ⟨x, hx, hlower⟩ := List.mem_map.mp hmem
  rw [toLower_of_isDigit hdigit] at hlower
  exact Bool.false_ne_true ((hword x hx).symm.trans (hlower ▸ hdigit))

end Text

/-! ## Operands -/

namespace Value

theorem toNumber_number (n : Decimal) :
    (Value.text (Value.number n).toText).toNumber = .ok n.normalize := by
  have hread : parseNumber? (Value.number n).toText = some n.normalize := parseNumber?_toText n
  simp only [toNumber, scalar, Except.bind, scalarNumber, hread]

theorem toBool_boolean (b : Bool) : (Value.text (Value.boolean b).toText).toBool = .ok b := by
  cases b <;> decide

theorem toDate_date (d : Calendar.DateTime) :
    (Value.text (Value.date d).toText).toDate = .ok d.toSecond.shown := by
  have hread : Calendar.DateTime.ofText? (Value.date d).toText = some d.toSecond.shown :=
    d.ofText?_toText
  simp only [toDate, scalar, Except.bind, scalarDate, hread]

end Value

/-! ## Options -/

namespace CommandLine

variable {c : Char} {cs : List Char}

theorem readValue_boolean (b : Bool) : readValue (Value.boolean b).toText.toList = .boolean b := by
  cases b <;> decide

/-- A text with a digit in it and without white space is a number if it reads as one, or else a date
if it reads as one. -/
theorem readValue_of_isDigit (hblank : ∀ x ∈ cs, Text.isBlank x = false) (hc : c ∈ cs)
    (hdigit : c.isDigit = true) :
    readValue cs = (((Decimal.ofChars? cs).map .number).or
      ((readInstant? cs).map .date)).getD (.text (String.ofList cs)) := by
  have hsome : cs.isEmpty = false := List.isEmpty_eq_false_iff.mpr (List.ne_nil_of_mem hc)
  have htrue : Text.sameIgnoringCase (String.ofList cs) "true" = false :=
    Text.sameIgnoringCase_of_isDigit hc hdigit (by simp)
  have hfalse : Text.sameIgnoringCase (String.ofList cs) "false" = false :=
    Text.sameIgnoringCase_of_isDigit hc hdigit (by simp)
  simp only [readValue, Text.trimChars_eq_self hblank, hsome, htrue, hfalse, Bool.false_eq_true,
    if_false]
  cases Decimal.ofChars? cs with
  | some n => rfl
  | none => cases readInstant? cs <;> rfl

theorem readValue_number (n : Decimal) :
    readValue (Value.number n).toText.toList = .number n.normalize := by
  have hblank : ∀ c ∈ n.normalize.toChars, Text.isBlank c = false := fun _ =>
    Decimal.isBlank_of_mem_toChars
  obtain ⟨c, hc, hdigit⟩ := n.normalize.exists_isDigit
  have hread : Decimal.ofChars? n.normalize.toChars = some n.normalize :=
    Decimal.ofChars?_toChars_of_ne_zero Decimal.mantissa_normalize_ne_zero
  rw [Value.toText, Decimal.toText, String.toList_ofList, readValue_of_isDigit hblank hc hdigit,
    hread]
  rfl

/-- The text of a date reads as no number. -/
theorem ofChars?_date (d : Calendar.DateTime) : Decimal.ofChars? d.toChars = none := by
  have hiso := d.isIso_of_mem_toChars
  obtain ⟨c, cs, hcs, hmark⟩ := d.exists_toChars_eq
  rw [hcs] at hiso ⊢
  refine Decimal.ofChars?_eq_none hmark (by simp [Decimal.IsPlain]) fun y hy => ?_
  constructor
  · rintro rfl
    exact absurd (hiso 'e' hy) (by simp [Calendar.IsIso])
  · rintro rfl
    exact absurd (hiso 'E' hy) (by simp [Calendar.IsIso])

theorem readValue_date (d : Calendar.DateTime) :
    readValue (Value.date d).toText.toList = .date d.toSecond.shown := by
  have hblank : ∀ c ∈ d.toChars, Text.isBlank c = false := fun c hc =>
    (d.isIso_of_mem_toChars c hc).isBlank
  have hinstant : readInstant? d.toChars = some d.toSecond.shown := by
    rw [readInstant?, d.ofChars?_toChars]
    rfl
  obtain ⟨c, hc, hdigit⟩ := d.exists_isDigit
  rw [Value.toText, Calendar.DateTime.toText, String.toList_ofList,
    readValue_of_isDigit hblank hc hdigit, ofChars?_date, hinstant]
  rfl

/-- The text of a number, a Boolean or a date reads as that value, a date without the fraction of
its second. The text of a stray leap second reads as the second after it. -/
theorem texts_read_back :
    (∀ n, ∃ m, (Value.text (Value.number n).toText).toNumber = .ok m ∧ m.sameNumber n = true) ∧
      (∀ b, (Value.text (Value.boolean b).toText).toBool = .ok b) ∧
      (∀ d, ¬ d.time.IsStray → (Value.text (Value.date d).toText).toDate = .ok d.toSecond) ∧
      readValue Value.null.toText.toList = .null ∧
      (∀ b, readValue (Value.boolean b).toText.toList = .boolean b) ∧
      (∀ n, ∃ m, readValue (Value.number n).toText.toList = .number m ∧
        m.sameNumber n = true) ∧
      (∀ d, ¬ d.time.IsStray → readValue (Value.date d).toText.toList = .date d.toSecond) ∧
      (∀ d : Calendar.DateTime, d.toSecond.time.fraction = 0 ∧ d.toSecond.toText = d.toText) ∧
      (∀ d : Calendar.DateTime, d.time.fraction = 0 → d.toSecond = d) ∧
      ∀ d, d.time.IsStray → ∃ next : Calendar.DateTime,
        (next.date = d.date ∧ next.time.seconds = d.time.seconds + 1 ∧ next.time.nanos = 0) ∧
        (Value.text (Value.date d).toText).toDate = .ok next ∧
        readValue (Value.date d).toText.toList = .date next := by
  have hsame (n : Decimal) : n.normalize.sameNumber n = true :=
    Decimal.sameNumber_symm n.sameNumber_normalize
  have hshown (d : Calendar.DateTime) (hstray : ¬ d.time.IsStray) :
      d.toSecond.shown = d.toSecond :=
    d.toSecond.shown_eq_self (mt Calendar.TimeOfDay.isStray_toSecond.mp hstray)
  refine ⟨fun n => ⟨n.normalize, Value.toNumber_number n, hsame n⟩, Value.toBool_boolean,
    fun d hstray => ?_, rfl, readValue_boolean,
    fun n => ⟨n.normalize, readValue_number n, hsame n⟩, fun d hstray => ?_,
    fun d => ⟨d.time.fraction_toSecond, d.toText_toSecond⟩,
    fun _ hwhole => Calendar.DateTime.toSecond_eq_self hwhole, fun d hstray => ?_⟩
  · rw [Value.toDate_date, hshown d hstray]
  · rw [readValue_date, hshown d hstray]
  · obtain ⟨hseconds, hnanos⟩ :=
      Calendar.TimeOfDay.shown_of_isStray (Calendar.TimeOfDay.isStray_toSecond.mpr hstray)
    exact ⟨d.toSecond.shown, ⟨rfl, hseconds, hnanos.trans d.time.fraction_toSecond⟩,
      Value.toDate_date d, readValue_date d⟩

/-- A leap second at the end of a year with five digits. -/
def farLeapSecond : Calendar.DateTime where
  date := (Calendar.Date.ofParts? 12016 12 31).get rfl
  time := (Calendar.TimeOfDay.ofParts? 23 59 60 0).get rfl

theorem texts_read_back_farLeapSecond :
    ¬ farLeapSecond.time.IsStray ∧ farLeapSecond.time.fraction = 0 ∧
      (Value.date farLeapSecond).toText = "+12016-12-31T23:59:60" ∧
      readValue (Value.date farLeapSecond).toText.toList = .date farLeapSecond ∧
      Calendar.DateTime.strayLeapSecond.time.IsStray ∧
      ∃ next : Calendar.DateTime, next.time.seconds = 12 * 3600 + 31 ∧
        (Value.text (Value.date .strayLeapSecond).toText).toDate = .ok next := by
  have hclear : ¬ farLeapSecond.time.IsStray := by decide
  have hwhole : farLeapSecond.time.fraction = 0 := by decide
  have hstray : Calendar.DateTime.strayLeapSecond.time.IsStray := by decide
  obtain ⟨-, -, -, -, -, -, hdate, -, hself, hnext⟩ := texts_read_back
  obtain ⟨next, ⟨-, hseconds, -⟩, hread, -⟩ := hnext .strayLeapSecond hstray
  refine ⟨hclear, hwhole, by decide, ?_, hstray, next, hseconds, hread⟩
  rw [hdate farLeapSecond hclear, hself farLeapSecond hwhole]

/-- The text of a leap second in the middle of a minute is read, as an operand and as an option, as
the second after it, whose timestamp is another. -/
theorem strayLeapSecond_read_as_next :
    Calendar.DateTime.strayLeapSecond.time.fraction = 0 ∧
      Calendar.DateTime.strayLeapSecond.toSecond.timestamp = 1704110430 ∧
      ∃ next : Calendar.DateTime, next ≠ Calendar.DateTime.strayLeapSecond.toSecond ∧
        next.timestamp = 1704110431 ∧
        (Value.text (Value.date .strayLeapSecond).toText).toDate = .ok next ∧
        readValue (Value.date .strayLeapSecond).toText.toList = .date next :=
  ⟨by decide, by decide, Calendar.DateTime.strayLeapSecond.toSecond.shown, by decide, by decide,
    Value.toDate_date _, readValue_date _⟩

end CommandLine

end ComputedFields
