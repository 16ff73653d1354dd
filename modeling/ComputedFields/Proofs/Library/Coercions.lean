import ComputedFields.Proofs.Decimal.Text
import ComputedFields.Proofs.Library.Catalog
import ComputedFields.Proofs.Text.Blank
import ComputedFields.Proofs.Value.Scale

/-!
# What functions make of their arguments

A function coerces its arguments, or looks into the lists among them and coerces their items. So it
gives the same for arguments that every coercion makes the same of, whatever they are; it is only
adding a span of time to a date that asks for the type of an argument.
-/

namespace ComputedFields

open Value

namespace Value

variable {a b : Value} {as bs : List Value}

/-- Every coercion makes the same of two values, but for the way in which numbers are written. -/
structure Alike (a b : Value) : Prop where
  asText : a.asText = b.asText
  toNumber : AgreeNumber a.toNumber b.toNumber
  toBool : a.toBool = b.toBool
  toDate : a.toDate = b.toDate

/-- Neither can two values be told apart as items of a list. -/
structure AlikeItem (a b : Value) : Prop extends Alike a b where
  isBlank : a.isBlank = b.isBlank
  isNumber : Library.isNumber a = Library.isNumber b
  error? : a.error? = b.error?

/-- Neither can they be told apart as arguments: they are two lists of such items, a single value
being the only item of one. -/
structure AlikeArgument (a b : Value) : Prop extends Alike a b where
  items : List.Forall₂ AlikeItem (flatten [a]) (flatten [b])

theorem Alike.refl (a : Value) : Alike a a := ⟨rfl, agreeNumber_refl _, rfl, rfl⟩

theorem AlikeItem.refl (a : Value) : AlikeItem a a := ⟨.refl a, rfl, rfl, rfl⟩

theorem AlikeArgument.refl (a : Value) : AlikeArgument a a :=
  ⟨.refl a, List.forall₂_same.mpr fun item _ => .refl item⟩

namespace Alike

variable (h : Alike a b)
include h

theorem toInteger : a.toInteger = b.toInteger :=
  h.toNumber.bind_eq fun _ _ hsame => by rw [Decimal.toInt_congr hsame]

theorem toCount : a.toCount = b.toCount := by
  rw [Value.toCount, Value.toCount, h.toInteger]

end Alike

theorem flatten_alike (h : List.Forall₂ AlikeArgument as bs) :
    List.Forall₂ AlikeItem (flatten as) (flatten bs) := by
  induction h with
  | nil => exact .nil
  | @cons a b as bs hhead _ ih =>
    rw [flatten_cons a, flatten_cons b]
    exact List.rel_append hhead.items ih

theorem firstError?_alike (h : List.Forall₂ AlikeArgument as bs) :
    firstError? as = firstError? bs := by
  have hfirst {as bs : List Value} (h : List.Forall₂ AlikeItem as bs) :
      as.findSome? error? = bs.findSome? error? := by
    induction h with
    | nil => rfl
    | cons hhead _ ih => rw [List.findSome?_cons, List.findSome?_cons, hhead.error?, ih]
  exact hfirst (flatten_alike h)

/-- The items that are not blank. -/
theorem filter_alike (h : List.Forall₂ AlikeItem as bs) :
    List.Forall₂ AlikeItem (as.filter fun v => !v.isBlank) (bs.filter fun v => !v.isBlank) :=
  List.rel_filter (fun a b (hitem : AlikeItem a b) => by
    show (!a.isBlank) = true ↔ (!b.isBlank) = true
    rw [hitem.isBlank]) h

/-- The text of a number in its shortest form reads as that number. -/
theorem parseNumber?_toText (n : Decimal) :
    parseNumber? n.normalize.toText = some n.normalize := by
  have hblank : ∀ c ∈ n.normalize.toChars, Text.isBlank c = false := fun _ =>
    Decimal.isBlank_of_mem_toChars
  have hsome : n.normalize.toChars.isEmpty = false :=
    List.isEmpty_eq_false_iff.mpr (Decimal.toChars_ne_nil _)
  rw [parseNumber?, Decimal.toText, String.toList_ofList, Text.trimChars_eq_self hblank, hsome]
  exact Decimal.ofChars?_toChars_of_ne_zero Decimal.mantissa_normalize_ne_zero

end Value

theorem mapM_eq_of_forall₂ {α β : Type} {r : α → α → Prop} {f : α → Except ErrorKind β}
    {as bs : List α} (h : List.Forall₂ r as bs) (hf : ∀ a b, r a b → f a = f b) :
    as.mapM f = bs.mapM f := by
  induction h with
  | nil => rfl
  | cons hhead _ ih => rw [List.mapM_cons, List.mapM_cons, hf _ _ hhead, ih]

/-- The span of time that is added to a date: the second of two arguments, if it is one. -/
def Library.addedSpan? : List Value → Option Calendar.Duration
  | [_, .duration span] => some span
  | _ => none

/-- The function gives the same for arguments that coercions make the same of. Where a span of time
is added to a date it has to be the same, too. -/
def Function.Coerces (f : Function) : Prop :=
  ∀ now args args', f.accepts args.length = true → List.Forall₂ AlikeArgument args args' →
    (f.name = "DATE_ADD" → Library.addedSpan? args = Library.addedSpan? args') →
      Agree SameValue (f.run now args) (f.run now args')

namespace Library

variable {f : Function} {a b a' b' : Value} {args args' : List Value}

/-! ## Arguments one by one -/

theorem agree_of_eq {x y : Except ErrorKind Value} (h : x = y) : Agree SameValue x y :=
  h ▸ agree_refl x

/-- The function gives exactly the same. -/
theorem coerces_of_eq (h : ∀ now args args', List.Forall₂ AlikeArgument args args' →
    f.run now args = f.run now args') : f.Coerces := fun now args args' _ hargs _ =>
  agree_of_eq (h now args args' hargs)

theorem coerces_single (hmin : f.minArgs = 1) (hmax : f.maxArgs = some 1)
    (h : ∀ now a a', AlikeArgument a a' → Agree SameValue (f.run now [a]) (f.run now [a'])) :
    f.Coerces := by
  intro now args args' haccepts hargs _
  obtain ⟨hleast, hgreatest⟩ := length_of_accepts hmin hmax haccepts
  match args, args', hargs with
  | [a], [a'], .cons ha .nil => exact h now a a' ha

theorem coerces_pair (hmin : f.minArgs = 2) (hmax : f.maxArgs = some 2)
    (h : ∀ now a a' b b', AlikeArgument a a' → AlikeArgument b b' →
      Agree SameValue (f.run now [a, b]) (f.run now [a', b'])) : f.Coerces := by
  intro now args args' haccepts hargs _
  obtain ⟨hleast, hgreatest⟩ := length_of_accepts hmin hmax haccepts
  match args, args', hargs with
  | [a, b], [a', b'], .cons ha (.cons hb .nil) => exact h now a a' b b' ha hb

theorem coerces_optional (hmin : f.minArgs = 1) (hmax : f.maxArgs = some 2)
    (h : ∀ now a a', AlikeArgument a a' → Agree SameValue (f.run now [a]) (f.run now [a']))
    (h' : ∀ now a a' b b', AlikeArgument a a' → AlikeArgument b b' →
      Agree SameValue (f.run now [a, b]) (f.run now [a', b'])) : f.Coerces := by
  intro now args args' haccepts hargs _
  obtain ⟨hleast, hgreatest⟩ := length_of_accepts hmin hmax haccepts
  match args, args', hargs with
  | [a], [a'], .cons ha .nil => exact h now a a' ha
  | [a, b], [a', b'], .cons ha (.cons hb .nil) => exact h' now a a' b b' ha hb

/-! ## Numbers -/

theorem agree_numbers (h : List.Forall₂ AlikeArgument args args') :
    Agree (List.Forall₂ fun m n => m.sameNumber n = true) (numbers args) (numbers args') :=
  .mapM (filter_alike (flatten_alike h)) fun _ _ hitem => hitem.toNumber

theorem agree_total {ms ns : List Decimal}
    (h : List.Forall₂ (fun m n => m.sameNumber n = true) ms ns) :
    AgreeNumber (total ms) (total ns) := by
  have hfold {m n : Decimal} (hmn : m.sameNumber n = true) :
      AgreeNumber (ms.foldlM (fun sum n => orOverflow (sum.add? n)) m)
        (ns.foldlM (fun sum n => orOverflow (sum.add? n)) n) := by
    induction h generalizing m n with
    | nil => exact .ok hmn
    | cons hhead _ ih =>
      rw [List.foldlM_cons, List.foldlM_cons]
      exact (agree_orOverflow (Decimal.add?_same hmn hhead)).bind fun _ _ h => ih h
  exact hfold (Decimal.sameNumber_refl .zero)

theorem agree_number {x y : Except ErrorKind Decimal} (h : AgreeNumber x y) :
    Agree SameValue (x.map .number) (y.map .number) :=
  h.map fun _ _ h => sameValue_number h

theorem coerces_sum (hrun : f.run = fun _ => sum) : f.Coerces := fun _ args args' _ h _ => by
  rw [hrun]
  exact (agree_numbers h).bind fun _ _ h => agree_number (agree_total h)

theorem coerces_average (hrun : f.run = fun _ => average) : f.Coerces := by
  intro now args args' _ h _
  rw [hrun]
  refine (agree_numbers h).bind fun ms ns h => ?_
  have hlength : ms.length = ns.length := h.length_eq
  have hempty : ms.isEmpty = ns.isEmpty := by
    cases h <;> rfl
  rw [hempty, hlength]
  split
  · exact .error _
  · exact (agree_total h).bind fun m n hmn =>
      (agreeNumber_refl _).bind fun k l hkl =>
        agree_number (agree_orOverflow (Decimal.div?_same hmn hkl))

/-- The pick of the least or the greatest of some numbers goes by their order only. -/
theorem sameNumber_foldl {pick : Decimal → Decimal → Decimal}
    (hpick : ∀ {m m' n n'}, m.sameNumber m' = true → n.sameNumber n' = true →
      (pick m n).sameNumber (pick m' n') = true) {ms ns : List Decimal}
    (h : List.Forall₂ (fun m n => m.sameNumber n = true) ms ns) {m n : Decimal}
    (hmn : m.sameNumber n = true) : (ms.foldl pick m).sameNumber (ns.foldl pick n) = true := by
  induction h generalizing m n with
  | nil => exact hmn
  | cons hhead _ ih => exact ih (hpick hmn hhead)

/-- A function that goes through the numbers and keeps one of them. -/
theorem coerces_pick {pick? : List Decimal → Option Decimal} {pick : Decimal → Decimal → Decimal}
    (hrun : f.run = fun _ args => (numbers args).map fun ns => numberOrNull (pick? ns))
    (hnil : pick? [] = none) (hcons : ∀ n ns, pick? (n :: ns) = some (ns.foldl pick n))
    (hpick : ∀ {m m' n n'}, m.sameNumber m' = true → n.sameNumber n' = true →
      (pick m n).sameNumber (pick m' n') = true) : f.Coerces := by
  intro now args args' _ h _
  rw [hrun]
  refine (agree_numbers h).map fun ms ns h => ?_
  cases h with
  | nil =>
    rw [hnil]
    rfl
  | cons hhead htail =>
    rw [hcons, hcons]
    exact sameValue_number (sameNumber_foldl hpick htail hhead)

theorem coerces_minimum (hrun : f.run = fun _ => minimum) : f.Coerces := by
  refine coerces_pick hrun rfl (fun _ _ => rfl) fun hm hn => ?_
  rw [Decimal.lt_congr hn hm]
  split
  · exact hn
  · exact hm

theorem coerces_maximum (hrun : f.run = fun _ => maximum) : f.Coerces := by
  refine coerces_pick hrun rfl (fun _ _ => rfl) fun hm hn => ?_
  rw [Decimal.lt_congr hn hm]
  split
  · exact hm
  · exact hn

theorem count_congr (h : List.Forall₂ AlikeArgument args args') : count args = count args' := by
  have hcount {as bs : List Value} (h : List.Forall₂ AlikeItem as bs) :
      as.countP Library.isNumber = bs.countP Library.isNumber := by
    induction h with
    | nil => rfl
    | cons hhead _ ih => rw [List.countP_cons, List.countP_cons, ih, hhead.isNumber]
  rw [count, count, hcount (flatten_alike h)]

theorem agree_roundPower {m n : Decimal} (h : m.sameNumber n = true) (power : Nat) :
    AgreeNumber (roundPower m power) (roundPower n power) := by
  refine (agreeNumber_refl _).bind fun factor factor' hfactor => ?_
  refine (agree_orOverflow (Decimal.div?_same h hfactor)).bind fun _ _ hscaled => ?_
  exact agree_orOverflow (Decimal.mul?_same (Decimal.sameNumber_round hscaled _) hfactor)

theorem agree_roundTo {m n : Decimal} (h : m.sameNumber n = true) (digits : Int) :
    Agree SameValue (roundTo m digits) (roundTo n digits) := by
  rw [roundTo, roundTo]
  refine agree_number ?_
  split
  · rw [roundDigits, roundDigits]
    split
    · exact .error _
    · exact .ok (Decimal.sameNumber_round h _)
  · exact agree_roundPower h _

theorem agree_roundPlaces (ha : AlikeArgument a a') (hb : AlikeArgument b b') :
    Agree SameValue (round [a, b]) (round [a', b']) := by
  rw [round, round, hb.toInteger]
  exact ha.toNumber.bind fun _ _ h =>
    (Agree.refl (fun _ => rfl) _).bind fun digits digits' (hdigits : digits = digits') =>
      hdigits ▸ agree_roundTo h digits

/-- The sign of a remainder is compared only if it is not zero, and the divisor is not either. -/
theorem agree_modulo {m m' n n' : Decimal} (hm : m.sameNumber m' = true)
    (hn : n.sameNumber n' = true) : AgreeNumber (modulo m n) (modulo m' n') := by
  rw [modulo, modulo, ← Decimal.isZero_congr hn]
  cases hzero : n.isZero with
  | true => exact .error _
  | false =>
    refine (agree_orOverflow (Decimal.rem?_same hm hn)).bind fun r r' hr => ?_
    rw [← Decimal.isZero_congr hr]
    cases hrest : r.isZero with
    | true => exact .ok hr
    | false =>
      rw [← Decimal.negative_of_sameNumber hr (Decimal.mantissa_ne_zero hrest),
        ← Decimal.negative_of_sameNumber hn (Decimal.mantissa_ne_zero hzero)]
      split
      · exact agree_orOverflow (Decimal.add?_same hr hn)
      · exact .ok hr

theorem agree_mod (ha : AlikeArgument a a') (hb : AlikeArgument b b') :
    Agree SameValue (mod [a, b]) (mod [a', b']) :=
  ha.toNumber.bind fun _ _ hm => hb.toNumber.bind fun _ _ hn => agree_number (agree_modulo hm hn)

/-! ## Truth values -/

theorem toBools_congr (h : List.Forall₂ AlikeArgument args args') :
    (flatten args).mapM toBool = (flatten args').mapM toBool :=
  mapM_eq_of_forall₂ (flatten_alike h) fun _ _ hitem => hitem.toBool

/-! ## Texts -/

theorem concatenate_congr (h : List.Forall₂ AlikeArgument args args') :
    concatenate args = concatenate args' := by
  rw [concatenate, concatenate, mapM_eq_of_forall₂ h fun _ _ harg => harg.asText]

theorem join_congr (h : AlikeArgument a b) (separator : String) :
    join a separator = join b separator := by
  rw [join, join, mapM_eq_of_forall₂ (filter_alike h.items) fun _ _ hitem => hitem.asText]

theorem toPosition_congr (h : AlikeArgument a b) : toPosition a = toPosition b := by
  rw [toPosition, toPosition, h.toCount]

theorem countOrOne_congr (h : List.Forall₂ AlikeArgument args args') :
    countOrOne args = countOrOne args' := by
  cases h with
  | nil => rfl
  | cons ha _ => exact ha.toCount

theorem positionOrOne_congr (h : List.Forall₂ AlikeArgument args args') :
    positionOrOne args = positionOrOne args' := by
  cases h with
  | nil => rfl
  | cons ha _ => exact toPosition_congr ha

theorem left_congr (h : List.Forall₂ AlikeArgument args args') : left args = left args' := by
  cases h with
  | nil => rfl
  | cons ha hrest => simp only [left, ha.asText, countOrOne_congr hrest]

theorem right_congr (h : List.Forall₂ AlikeArgument args args') : right args = right args' := by
  cases h with
  | nil => rfl
  | cons ha hrest => simp only [right, ha.asText, countOrOne_congr hrest]

theorem mid_congr (h : List.Forall₂ AlikeArgument args args') : mid args = mid args' := by
  match args, args', h with
  | [_, _, _], [_, _, _], .cons ha (.cons hb (.cons hc .nil)) =>
    simp only [mid, ha.asText, toPosition_congr hb, hc.toCount]
  | [], [], _ | [_], [_], _ | [_, _], [_, _], _ => rfl
  | _ :: _ :: _ :: _ :: _, _ :: _ :: _ :: _ :: _, _ => rfl

theorem replace_congr (h : List.Forall₂ AlikeArgument args args') :
    replace args = replace args' := by
  match args, args', h with
  | [_, _, _, _], [_, _, _, _], .cons ha (.cons hb (.cons hc (.cons hd .nil))) =>
    simp only [replace, ha.asText, toPosition_congr hb, hc.toCount, hd.asText]
  | [], [], _ | [_], [_], _ | [_, _], [_, _], _ | [_, _, _], [_, _, _], _ => rfl
  | _ :: _ :: _ :: _ :: _ :: _, _ :: _ :: _ :: _ :: _ :: _, _ => rfl

theorem find_congr (h : List.Forall₂ AlikeArgument args args') : find args = find args' := by
  match args, args', h with
  | [], [], _ | [_], [_], _ => rfl
  | _ :: _ :: _, _ :: _ :: _, .cons ha (.cons hb hrest) =>
    simp only [find, ha.asText, hb.asText, positionOrOne_congr hrest]

theorem substitute_congr (h : List.Forall₂ AlikeArgument args args') :
    substitute args = substitute args' := by
  match args, args', h with
  | [], [], _ | [_], [_], _ | [_, _], [_, _], _ => rfl
  | [_, _, _], [_, _, _], .cons ha (.cons hb (.cons hc .nil)) =>
    simp only [substitute, ha.asText, hb.asText, hc.asText]
  | _ :: _ :: _ :: _ :: _, _ :: _ :: _ :: _ :: _, .cons ha (.cons hb (.cons hc (.cons hd _))) =>
    simp only [substitute, ha.asText, hb.asText, hc.asText, toPosition_congr hd]

/-- The number that a text reads as. -/
def readNumber (s : String) : Except ErrorKind Value :=
  match parseNumber? s with
  | some n => .ok (.number n)
  | none => .error .typeMismatch

/-- A number is read from its text as well. -/
theorem agree_value_asText (a : Value) :
    Agree SameValue (value [a]) (a.asText.bind readNumber) := by
  cases a with
  | number n =>
    have htext : (Value.number n).asText = .ok n.normalize.toText := rfl
    rw [htext, Except.bind, readNumber, parseNumber?_toText]
    exact .ok (sameValue_number n.sameNumber_normalize)
  | _ => exact agree_refl _

theorem agree_value (h : Alike a b) : Agree SameValue (value [a]) (value [b]) := by
  have ha := agree_value_asText a
  rw [h.asText] at ha
  exact agree_trans ha (agree_symm (agree_value_asText b))

/-! ## Dates -/

theorem dateStep_congr {m n : Decimal} (h : m.sameNumber n = true) (d : Calendar.DateTime)
    (unit : TimeUnit) : dateStep d m unit = dateStep d n unit := by
  rw [dateStep, dateStep]
  cases unit.length with
  | millis k =>
    refine (agreeNumber_refl _).bind_eq fun factor factor' hfactor => ?_
    refine (agree_orOverflow (Decimal.mul?_same h hfactor)).bind_eq fun _ _ hproduct => ?_
    rw [Decimal.toInt_congr hproduct]
  | months k =>
    simp only [Decimal.toInt_congr h]

theorem unitOrDays_congr (h : List.Forall₂ AlikeArgument args args') :
    unitOrDays args = unitOrDays args' := by
  cases h with
  | nil => rfl
  | cons ha _ => simp only [unitOrDays, ha.asText]

/-- Only a single value that is a span of time is added as one. -/
theorem dateAdd_eq (a b : Value) (rest : List Value) :
    dateAdd (a :: b :: rest) = a.toDate.bind fun d =>
      match addedSpan? (a :: b :: rest) with
      | some span => do
        let result ← orOverflow (d.add? span)
        return .date result
      | none => do
        let count ← b.toNumber
        let unit ← unitOrDays rest
        let result ← dateStep d count unit
        return .date result := by
  cases b <;> cases rest <;> rfl

theorem dateAdd_congr (h : List.Forall₂ AlikeArgument args args')
    (hspan : addedSpan? args = addedSpan? args') : dateAdd args = dateAdd args' := by
  match args, args', h with
  | [], [], _ | [_], [_], _ => rfl
  | a :: b :: rest, a' :: b' :: rest', .cons ha (.cons hb hrest) =>
    have hunits (d : Calendar.DateTime) : (do
        let count ← b.toNumber
        let unit ← unitOrDays rest
        let result ← dateStep d count unit
        return .date result : Except ErrorKind Value) = (do
        let count ← b'.toNumber
        let unit ← unitOrDays rest'
        let result ← dateStep d count unit
        return .date result) := by
      rw [unitOrDays_congr hrest]
      exact hb.toNumber.bind_eq fun m n h => by simp only [dateStep_congr h]
    simp only [dateAdd_eq, hspan, ha.toDate, hunits]

theorem dateDiff_congr (h : List.Forall₂ AlikeArgument args args') :
    dateDiff args = dateDiff args' := by
  match args, args', h with
  | [], [], _ | [_], [_], _ => rfl
  | _ :: _ :: _, _ :: _ :: _, .cons ha (.cons hb hrest) =>
    simp only [dateDiff, ha.toDate, hb.toDate, unitOrDays_congr hrest]

/-! ## All functions -/

theorem coerces_of_mem : ∀ f ∈ functions, f.errors = .propagate → f.Coerces := by
  simp only [functions, List.forall_mem_cons, List.not_mem_nil, reduceCtorEq, false_implies,
    implies_true, true_implies, true_and, and_true]
  -- one line for each function, in the order of the catalog
  exact ⟨
    coerces_single rfl rfl fun _ _ _ h => h.toNumber.map fun _ _ h =>
      sameValue_number (Decimal.sameNumber_abs h),
    coerces_of_eq fun _ _ _ h => by simp only [conjunction, toBools_congr h],
    coerces_optional rfl rfl (fun _ _ _ h => agree_of_eq (join_congr h ", "))
      fun _ _ _ _ _ ha hb => agree_of_eq (by simp only [arrayJoin, hb.asText, join_congr ha]),
    coerces_average rfl,
    coerces_of_eq fun _ _ _ _ => rfl,
    coerces_of_eq fun _ _ _ => concatenate_congr,
    coerces_of_eq fun _ _ _ => count_congr,
    fun _ _ _ _ h hspan => agree_of_eq (dateAdd_congr h (hspan rfl)),
    coerces_of_eq fun _ _ _ => dateDiff_congr,
    coerces_single rfl rfl fun _ _ _ h => agree_of_eq (by simp only [day, h.toDate]),
    coerces_of_eq fun _ _ _ _ => rfl,
    coerces_of_eq fun _ _ _ => find_congr,
    coerces_optional rfl rfl
      (fun _ _ _ h => agree_of_eq (by simp only [formatDate, h.toDate]))
      fun _ _ _ _ _ ha hb => agree_of_eq (by simp only [formatDate, ha.toDate, hb.asText]),
    coerces_of_eq fun _ _ _ _ => rfl,
    coerces_single rfl rfl fun _ _ _ h => h.toNumber.map fun _ _ h =>
      sameValue_number (Decimal.sameNumber_floor h),
    coerces_of_eq fun _ _ _ => left_congr,
    coerces_single rfl rfl fun _ _ _ h => agree_of_eq (by simp only [len, h.asText]),
    coerces_single rfl rfl fun _ _ _ h => agree_of_eq (by simp only [lower, h.asText]),
    coerces_maximum rfl,
    coerces_of_eq fun _ _ _ => mid_congr,
    coerces_minimum rfl,
    coerces_pair rfl rfl fun _ _ _ _ _ => agree_mod,
    coerces_single rfl rfl fun _ _ _ h => agree_of_eq (by simp only [month, h.toDate]),
    coerces_single rfl rfl fun _ _ _ h => agree_of_eq (by simp only [negation, h.toBool]),
    coerces_of_eq fun _ _ _ _ => rfl,
    coerces_of_eq fun _ _ _ h => by simp only [disjunction, toBools_congr h],
    coerces_of_eq fun _ _ _ => replace_congr,
    coerces_of_eq fun _ _ _ => right_congr,
    coerces_optional rfl rfl (fun _ _ _ h => h.toNumber.bind fun _ _ h => agree_roundTo h 0)
      fun _ _ _ _ _ => agree_roundPlaces,
    coerces_of_eq fun _ _ _ => substitute_congr,
    coerces_sum rfl,
    coerces_of_eq fun _ _ _ _ => rfl,
    coerces_single rfl rfl fun _ _ _ h => agree_of_eq (by simp only [trim, h.asText]),
    coerces_of_eq fun _ _ _ _ => rfl,
    coerces_single rfl rfl fun _ _ _ h => agree_of_eq (by simp only [upper, h.asText]),
    coerces_single rfl rfl fun _ _ _ h => agree_value h.toAlike,
    coerces_single rfl rfl fun _ _ _ h => agree_of_eq (by simp only [year, h.toDate])⟩

end Library

end ComputedFields
