import ComputedFields.Proofs.Calendar.Iso
import ComputedFields.Proofs.Calendar.Spans
import ComputedFields.Proofs.Value.Scale
import ComputedFields.Value.Stored

/-!
# Reading stored values

The stored form of any value is read back, lists of any depth included. What is read is the same
value, but that every span in it has lost what is left of a millisecond; a span is refused only
where its milliseconds are out of range, which those of a span never are.

A stray leap second, one that follows no 59th second, is stored as the second after it, and that is
what is read. No value that was itself read has one.
-/

namespace ComputedFields

/-- What holds of the items of an array and of the members of an object holds of all documents. -/
theorem Json.induct {motive : Json → Prop} (null : motive .null)
    (boolean : ∀ value, motive (.boolean value)) (number : ∀ value, motive (.number value))
    (text : ∀ value, motive (.text value))
    (array : ∀ items, (∀ item ∈ items, motive item) → motive (.array items))
    (object : ∀ members, (∀ member ∈ members, motive member.2) → motive (.object members)) :
    ∀ json, motive json :=
  @Json.rec motive (fun items => ∀ item ∈ items, motive item)
    (fun members => ∀ member ∈ members, motive member.2) (fun member => motive member.2)
    null boolean number text array object (by simp)
    (fun _ _ hitem hitems => List.forall_mem_cons.mpr ⟨hitem, hitems⟩) (by simp)
    (fun _ _ hmember hmembers => List.forall_mem_cons.mpr ⟨hmember, hmembers⟩) fun _ _ h => h

theorem Decimal.sameNumber_unsignZero (d : Decimal) : d.unsignZero.sameNumber d = true := by
  by_cases hzero : d.mantissa = 0
  · simp [sameNumber, signed, unsignZero, hzero]
  · rw [unsignZero_eq_self fun _ => hzero]
    exact sameNumber_refl d

theorem ErrorKind.ofName?_name (kind : ErrorKind) : ofName? kind.name = some kind := by
  cases kind <;> decide

namespace Value

variable {value : Value} {items : List Value} {f g : Value → Value}

/-! ## Values within lists -/

mutual

/-- The value with a function applied to everything in it that is no list. -/
def mapSingles (f : Value → Value) : Value → Value
  | .list items => .list (mapSinglesAll f items)
  | value => f value

/-- The values with a function applied to everything in them that is no list. -/
def mapSinglesAll (f : Value → Value) : List Value → List Value
  | [] => []
  | value :: values => mapSingles f value :: mapSinglesAll f values

end

theorem mapSinglesAll_eq_map (values : List Value) :
    mapSinglesAll f values = values.map (mapSingles f) := by
  induction values with
  | nil => rfl
  | cons value values ih => rw [mapSinglesAll, ih, List.map_cons]

theorem mapSingles_list (items : List Value) :
    (Value.list items).mapSingles f = .list (items.map (mapSingles f)) := by
  rw [mapSingles, mapSinglesAll_eq_map]

theorem mapSingles_single (h : ∀ items, value ≠ .list items) : value.mapSingles f = f value := by
  cases value with
  | list items => exact absurd rfl (h items)
  | _ => rfl

/-- A value is the whole of another or lies in it, however deep in lists. -/
inductive PartOf (part : Value) : Value → Prop where
  | whole : PartOf part part
  | item {item : Value} {items : List Value} (hitem : item ∈ items) (h : PartOf part item) :
      PartOf part (.list items)

@[simp] theorem partOf_list {part : Value} :
    PartOf part (.list items) ↔ part = .list items ∨ ∃ item ∈ items, PartOf part item := by
  constructor
  · intro h
    cases h with
    | whole => exact .inl rfl
    | item hitem h => exact .inr ⟨_, hitem, h⟩
  · rintro (rfl | ⟨item, hitem, h⟩)
    · exact .whole
    · exact .item hitem h

theorem partOf_single {part : Value} (h : ∀ items, value ≠ .list items) :
    PartOf part value ↔ part = value := by
  constructor
  · intro hpart
    cases hpart with
    | whole => rfl
    | item => exact absurd rfl (h _)
  · rintro rfl
    exact .whole

theorem sameValue_list (h : ∀ item ∈ items, SameValue (f item) (g item)) :
    SameValue (.list (items.map f)) (.list (items.map g)) := by
  rw [SameValue, normalize_list, normalize_list, List.map_map, List.map_map]
  exact congrArg Value.list (List.map_congr_left h)

/-- Functions that agree on the parts of a value change it in the same way. -/
theorem sameValue_mapSingles (h : ∀ part, PartOf part value → SameValue (f part) (g part)) :
    SameValue (value.mapSingles f) (value.mapSingles g) := by
  induction value using induct with
  | list items ih =>
    rw [mapSingles_list, mapSingles_list]
    exact sameValue_list fun item hitem =>
      ih item hitem fun part hpart => h part (.item hitem hpart)
  | single value hsingle =>
    rw [mapSingles_single hsingle, mapSingles_single hsingle]
    exact h value .whole

/-! ## What is read -/

/-- What is read from the stored form of a value that is no list. A number loses the sign of a zero,
a span what is left of a millisecond, and a stray leap second becomes the second after it. -/
def readBack : Value → Value
  | .number n => .number n.unsignZero
  | .date d => .date d.shown
  | .duration s => .duration s.wholeMillis
  | value => value

/-- A span without what is left of a millisecond. -/
def inMillis : Value → Value
  | .duration s => .duration s.wholeMillis
  | value => value

theorem ofJsonAll?_toJsonAll (h : ∀ item ∈ items, ofJson? item.toJson = some (f item)) :
    ofJsonAll? (toJsonAll items) = some (items.map f) := by
  induction items with
  | nil => rfl
  | cons item items ih =>
    obtain ⟨hitem, hitems⟩ := List.forall_mem_cons.mp h
    rw [toJsonAll, ofJsonAll?, hitem, ih hitems]
    rfl

theorem ofJson?_duration (millis : Int) : ofJson? (tagged "duration" (.number millis)) =
    (Calendar.Duration.ofMillis? millis).map .duration := rfl

/-- Every value is read back, with each single value in it as its stored form has it. -/
theorem ofJson?_toJson (value : Value) :
    ofJson? value.toJson = some (value.mapSingles readBack) := by
  induction value using induct with
  | list items ih =>
    have hitems := ofJsonAll?_toJsonAll ih
    show (ofJsonAll? (toJsonAll items)).map Value.list = _
    rw [hitems, mapSingles_list]
    rfl
  | single value hsingle =>
    rw [mapSingles_single hsingle]
    cases value with
    | list items => exact absurd rfl (hsingle items)
    | number n =>
      show (Decimal.ofText? n.toText).map Value.number = _
      rw [Decimal.ofText?, Decimal.toText, String.toList_ofList, Decimal.ofChars?_toChars_eq]
      rfl
    | date d =>
      show (Calendar.DateTime.ofExactText? d.toExactText).map Value.date = _
      rw [d.ofExactText?_toExactText]
      rfl
    | duration s =>
      show ofJson? (tagged "duration" (.number s.millis)) = _
      rw [ofJson?_duration, s.ofMillis?_millis]
      rfl
    | error kind =>
      show (ErrorKind.ofName? kind.name).map Value.error = _
      rw [kind.ofName?_name]
      rfl
    | _ => rfl

theorem sameValue_date_shown {d : Calendar.DateTime} (h : ¬ d.time.IsStray) :
    SameValue (.date d.shown) (.date d) := by
  rw [d.shown_eq_self h]
  exact .refl _

/-- Without a stray leap second only spans change. -/
theorem sameValue_readBack (h : ∀ d, PartOf (.date d) value → ¬ d.time.IsStray) :
    SameValue (value.mapSingles readBack) (value.mapSingles inMillis) := by
  refine sameValue_mapSingles fun part hpart => ?_
  cases part with
  | number n => exact sameValue_number n.sameNumber_unsignZero
  | date d => exact sameValue_date_shown (h d hpart)
  | _ => rfl

/-- What is read from a document is null or read from the content of an object. -/
theorem ofJson?_cases {json : Json} (h : ofJson? json = some value) :
    value = .null ∨ ∃ members key type content, json = .object members ∧
      (key, content) ∈ members ∧ ofContent? type content = some value := by
  unfold ofJson? at h
  split at h
  · split at h
    · exact .inl (Option.some.inj h).symm
    · cases h
  · exact .inr ⟨_, "value", _, _, rfl, List.mem_cons_of_mem _ List.mem_cons_self, h⟩
  · exact .inr ⟨_, "value", _, _, rfl, List.mem_cons_self, h⟩
  · cases h

theorem sameValue_of_ofText? {type text : String} (h : ofContent? type (.text text) = some value) :
    SameValue (value.mapSingles readBack) value := by
  simp only [ofContent?] at h
  split at h
  · obtain ⟨n, -, rfl⟩ := Option.map_eq_some_iff.mp h
    exact sameValue_number n.sameNumber_unsignZero
  · split at h
    · obtain rfl := Option.some.inj h
      rfl
    · split at h
      · obtain ⟨d, hd, rfl⟩ := Option.map_eq_some_iff.mp h
        exact sameValue_date_shown (Calendar.DateTime.not_isStray_of_ofExactText? hd)
      · obtain ⟨-, h⟩ := Option.ite_none_right_eq_some.mp h
        obtain ⟨kind, -, rfl⟩ := Option.map_eq_some_iff.mp h
        rfl

theorem sameValue_of_ofJsonAll? {items : List Json} {values : List Value}
    (hitems : ∀ item ∈ items, ∀ value, ofJson? item = some value →
      SameValue (value.mapSingles readBack) value) (h : ofJsonAll? items = some values) :
    ∀ value ∈ values, SameValue (value.mapSingles readBack) value := by
  induction items generalizing values with
  | nil =>
    obtain rfl := Option.some.inj h
    exact List.forall_mem_nil _
  | cons item items ih =>
    obtain ⟨value, hvalue, h⟩ := Option.bind_eq_some_iff.mp h
    obtain ⟨rest, hrest, h⟩ := Option.bind_eq_some_iff.mp h
    obtain rfl := Option.some.inj h
    obtain ⟨hitem, hitems⟩ := List.forall_mem_cons.mp hitems
    exact List.forall_mem_cons.mpr ⟨hitem value hvalue, ih hitems hrest⟩

/-- What was read once, from a document or from the content of a value, is stored and read as the
same value. -/
theorem sameValue_of_ofJson? (json : Json) :
    (∀ value, ofJson? json = some value → SameValue (value.mapSingles readBack) value) ∧
      ∀ type value, ofContent? type json = some value →
        SameValue (value.mapSingles readBack) value := by
  induction json using Json.induct with
  | null =>
    refine ⟨fun value h => (by cases h), fun type value h => ?_⟩
    obtain ⟨-, h⟩ := Option.ite_none_right_eq_some.mp h
    obtain rfl := Option.some.inj h
    rfl
  | boolean flag =>
    refine ⟨fun value h => (by cases h), fun type value h => ?_⟩
    obtain ⟨-, h⟩ := Option.ite_none_right_eq_some.mp h
    obtain rfl := Option.some.inj h
    rfl
  | number millis =>
    refine ⟨fun value h => (by cases h), fun type value h => ?_⟩
    obtain ⟨-, h⟩ := Option.ite_none_right_eq_some.mp h
    obtain ⟨s, hs, rfl⟩ := Option.map_eq_some_iff.mp h
    exact congrArg Value.duration (Calendar.Duration.wholeMillis_of_ofMillis? hs)
  | text text => exact ⟨fun value h => (by cases h), fun type value h => sameValue_of_ofText? h⟩
  | array items ih =>
    refine ⟨fun value h => (by cases h), fun type value h => ?_⟩
    obtain ⟨-, h⟩ := Option.ite_none_right_eq_some.mp h
    obtain ⟨values, hvalues, rfl⟩ := Option.map_eq_some_iff.mp h
    have hsame := sameValue_list (g := id)
      (sameValue_of_ofJsonAll? (fun item hitem => (ih item hitem).1) hvalues)
    rwa [List.map_id, ← mapSingles_list] at hsame
  | object members ih =>
    refine ⟨fun value h => ?_, fun type value h => by cases h⟩
    obtain rfl | ⟨members, key, type, content, heq, hmember, hread⟩ := ofJson?_cases h
    · rfl
    · obtain rfl := Json.object.inj heq
      exact (ih _ hmember).2 type value hread

/-- Every value is read back from its stored form, with its spans cut to whole milliseconds and each
stray leap second in it replaced by the second after it, with the same fraction. Without a stray
leap second only the spans change, and a value that was read before does not change. A span is
refused just where its milliseconds are out of range, and those of a span never are. -/
theorem stored_reads_back :
    (∀ v : Value, ofJson? v.toJson = some (v.mapSingles readBack)) ∧
      (∀ v : Value, (∀ d, PartOf (.date d) v → ¬ d.time.IsStray) →
        ∃ w, ofJson? v.toJson = some w ∧ w.same (v.mapSingles inMillis) = true) ∧
      (∀ d : Calendar.DateTime, d.time.IsStray → ∃ next : Calendar.DateTime,
        (next.date = d.date ∧ next.time.seconds = d.time.seconds + 1 ∧
          next.time.nanos = d.time.fraction) ∧
        readBack (.date d) = .date next) ∧
      (∀ json v, ofJson? json = some v → ∃ w, ofJson? v.toJson = some w ∧ w.same v = true) ∧
      (∀ millis, ofJson? (tagged "duration" (.number millis)) = none ↔
        millis < -(2 ^ 63 - 1) ∨ 2 ^ 63 - 1 < millis) ∧
      ∀ s : Calendar.Duration, -(2 ^ 63 - 1) ≤ s.millis ∧ s.millis ≤ 2 ^ 63 - 1 := by
  refine ⟨ofJson?_toJson, fun v h => ?_, fun d hstray => ?_, fun json v h => ?_, fun millis => ?_,
    fun s => s.millis_bounds⟩
  · exact ⟨_, ofJson?_toJson v, sameValue_iff.mpr (sameValue_readBack h)⟩
  · exact ⟨d.shown, ⟨rfl, Calendar.TimeOfDay.shown_of_isStray hstray⟩, rfl⟩
  · exact ⟨_, ofJson?_toJson v, sameValue_iff.mpr ((sameValue_of_ofJson? json).1 v h)⟩
  · rw [ofJson?_duration, Option.map_eq_none_iff]
    exact Calendar.Duration.ofMillis?_eq_none_iff

/-- Half a second into a leap second, in the year before the year 0. -/
def earlyLeapSecond : Calendar.DateTime where
  date := (Calendar.Date.ofParts? (-1) 12 31).get rfl
  time := (Calendar.TimeOfDay.ofParts? 23 59 60 500000000).get rfl

/-- A list in a list, with a negative zero and a span of a millisecond and a half backwards. -/
def mixed : Value :=
  .list [.number Decimal.zero.neg, .error .numericOverflow,
    .list [.date earlyLeapSecond, .duration ⟨-1500000, by decide, by decide⟩]]

/-- The same with its span cut and without the sign of the zero. -/
def mixedInMillis : Value :=
  .list [.number .zero, .error .numericOverflow,
    .list [.date earlyLeapSecond, .duration ⟨-1000000, by decide, by decide⟩]]

theorem stored_reads_back_mixed :
    (∀ d, PartOf (.date d) mixed → ¬ d.time.IsStray) ∧
      (∃ w, ofJson? mixed.toJson = some w ∧ w.same mixedInMillis = true) ∧
      (∃ w, ofJson? (mixed.mapSingles readBack).toJson = some w ∧
        w.same (mixed.mapSingles readBack) = true) ∧
      ofJson? (tagged "duration" (.number (-2 ^ 63))) = none ∧
      Calendar.DateTime.strayLeapSecond.time.IsStray ∧
      ∃ next : Calendar.DateTime, readBack (.date .strayLeapSecond) = .date next ∧
        next.time.seconds = Calendar.DateTime.strayLeapSecond.time.seconds + 1 := by
  have hclear : ∀ d, PartOf (.date d) mixed → ¬ d.time.IsStray := by
    intro d h
    have hd : d = earlyLeapSecond := by simpa [mixed, partOf_single] using h
    rw [hd]
    decide
  have hstray : Calendar.DateTime.strayLeapSecond.time.IsStray := by decide
  have hmillis : SameValue (mixed.mapSingles inMillis) mixedInMillis := rfl
  obtain ⟨hread, hclearRead, hnext, hagain, hrefused, -⟩ := stored_reads_back
  obtain ⟨w, hw, hsame⟩ := hclearRead mixed hclear
  obtain ⟨next, ⟨-, hseconds, -⟩, hnext⟩ := hnext .strayLeapSecond hstray
  refine ⟨hclear, ⟨w, hw, ?_⟩, hagain mixed.toJson _ (hread mixed), ?_, hstray, next, hnext,
    hseconds⟩
  · exact sameValue_iff.mpr ((sameValue_iff.mp hsame).trans hmillis)
  · exact (hrefused _).mpr (by decide)

/-- A leap second in the middle of a minute is stored, and read, as the second after it, whose
timestamp is another. -/
theorem strayLeapSecond_stored_as_next :
    Calendar.DateTime.strayLeapSecond.timestamp = 1704110430 ∧
      ∃ next : Calendar.DateTime, next.timestamp = 1704110431 ∧
        ofJson? (Value.date .strayLeapSecond).toJson = some (.date next) ∧
        (Value.date next).same ((Value.date .strayLeapSecond).mapSingles inMillis) = false :=
  ⟨by decide, Calendar.DateTime.strayLeapSecond.shown, by decide, ofJson?_toJson _, by decide⟩

end Value

end ComputedFields
