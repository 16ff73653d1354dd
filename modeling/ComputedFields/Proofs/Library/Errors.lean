import ComputedFields.Proofs.Library.Catalog
import ComputedFields.Proofs.Value.Errors

/-!
# Errors among arguments

How deep in nested lists each function of the library looks for errors. Where a function needs one
number, truth value or date, an error at any depth is its result. Where it needs a text, an error
more than two lists deep is taken for the text of its code, and counting passes over errors more
than one list deep.
-/

namespace ComputedFields

open Value

/-- How many lists deep errors are looked for in an argument of a kind, if there is a bound. -/
def ArgumentKind.sight : ArgumentKind → Option Nat
  | .text => some 2
  | .list => some 3
  | _ => none

namespace Function

/-- The kind of an argument. -/
def kindAt (f : Function) (index : Nat) : ArgumentKind :=
  ((f.params[index]?).or f.params.getLast?).getD .any

/-- Whether the text that is to be substituted is empty. -/
def substitutesNothing : List Value → Bool
  | _ :: old :: _ => match old.asText with
    | .ok s => s.isEmpty
    | .error _ => false
  | _ => false

/-- How many lists deep a function looks for errors in one of its arguments, if there is a bound.
Three functions do not keep to the kinds of their arguments. -/
def sight (f : Function) (args : List Value) (index : Nat) : Option Nat :=
  if f.name = "COUNT" then some 1
  else if f.name = "CONCATENATE" then some 2
  -- which occurrence is meant is not asked where nothing is to be substituted
  else if f.name = "SUBSTITUTE" ∧ index = 3 ∧ substitutesNothing args then some 1
  else (f.kindAt index).sight

/-- An error in one of the arguments lies no deeper than the function looks. -/
def Sees (f : Function) (args : List Value) : Prop :=
  ∃ (index : Nat) (arg : Value), args[index]? = some arg ∧ arg.SeenAt (f.sight args index)

/-- The function fails if it sees an error, and else does the same as with texts in place of all
errors. Errors up to one list deep are found before the function is run. -/
def Looks (f : Function) : Prop :=
  ∀ now args, f.accepts args.length = true → (∀ arg ∈ args, arg.errorWithin 1 = false) →
    Heeds (f.Sees args) (f.run now args) (f.run now (args.map plain))

end Function

namespace Library

variable {f : Function} {a b c d : Value} {args : List Value}

theorem exists_getElem?_cons {P : Nat → Value → Prop} :
    (∃ (index : Nat) (arg : Value), (a :: args)[index]? = some arg ∧ P index arg) ↔
      P 0 a ∨ ∃ (index : Nat) (arg : Value), args[index]? = some arg ∧ P (index + 1) arg := by
  constructor
  · rintro ⟨index, arg, harg, h⟩
    cases index with
    | zero =>
      cases harg
      exact .inl h
    | succ index => exact .inr ⟨index, arg, harg, h⟩
  · rintro (h | ⟨index, arg, harg, h⟩)
    · exact ⟨0, a, rfl, h⟩
    · exact ⟨index + 1, arg, harg, h⟩

theorem not_exists_getElem?_nil {P : Nat → Value → Prop} :
    ¬ ∃ (index : Nat) (arg : Value), ([] : List Value)[index]? = some arg ∧ P index arg := by
  rintro ⟨index, arg, harg, -⟩
  cases harg

theorem sees_one : f.Sees [a] ↔ a.SeenAt (f.sight [a] 0) := by
  rw [Function.Sees, exists_getElem?_cons, or_iff_left not_exists_getElem?_nil]

theorem sees_two : f.Sees [a, b] ↔
    a.SeenAt (f.sight [a, b] 0) ∨ b.SeenAt (f.sight [a, b] 1) := by
  rw [Function.Sees, exists_getElem?_cons, exists_getElem?_cons,
    or_iff_left not_exists_getElem?_nil]

theorem sees_three : f.Sees [a, b, c] ↔ a.SeenAt (f.sight [a, b, c] 0) ∨
    b.SeenAt (f.sight [a, b, c] 1) ∨ c.SeenAt (f.sight [a, b, c] 2) := by
  rw [Function.Sees, exists_getElem?_cons, exists_getElem?_cons, exists_getElem?_cons,
    or_iff_left not_exists_getElem?_nil]

theorem sees_four : f.Sees [a, b, c, d] ↔ a.SeenAt (f.sight [a, b, c, d] 0) ∨
    b.SeenAt (f.sight [a, b, c, d] 1) ∨ c.SeenAt (f.sight [a, b, c, d] 2) ∨
      d.SeenAt (f.sight [a, b, c, d] 3) := by
  rw [Function.Sees, exists_getElem?_cons, exists_getElem?_cons, exists_getElem?_cons,
    exists_getElem?_cons, or_iff_left not_exists_getElem?_nil]

/-- A function that looks equally deep in all arguments sees an error in any of them. -/
theorem sees_all {bound : Option Nat} (h : ∀ index, f.sight args index = bound) :
    f.Sees args ↔ ∃ arg ∈ args, arg.SeenAt bound := by
  simp only [Function.Sees, h, List.mem_iff_getElem?]
  exact ⟨fun ⟨index, arg, harg, hseen⟩ => ⟨arg, ⟨index, harg⟩, hseen⟩,
    fun ⟨arg, ⟨index, harg⟩, hseen⟩ => ⟨index, arg, harg, hseen⟩⟩

/-! ## Numbers, truth values and dates -/

/-- A computation that fails on all errors heeds them, for without errors nothing is replaced. -/
theorem heeds_of_fails {α : Type} (run : List Value → Except ErrorKind α)
    (h : (∃ arg ∈ args, arg.HoldsError) → ∃ kind, run args = .error kind) :
    Heeds (∃ arg ∈ args, arg.HoldsError) (run args) (run (args.map plain)) where
  fails := h
  same hnone := by
    have hplain : ∀ arg ∈ args, arg.plain = arg := fun arg harg =>
      plain_eq_self fun herror => hnone ⟨arg, harg, herror⟩
    rw [List.map_congr_left hplain, List.map_id']

theorem exists_mem_flatten (h : ∃ arg ∈ args, arg.HoldsError) :
    ∃ item ∈ flatten args, item.HoldsError := by
  obtain ⟨arg, harg, herror⟩ := h
  cases arg with
  | list items =>
    obtain ⟨item, hitem, herror⟩ := holdsError_list.mp herror
    exact ⟨item, List.mem_flatMap.mpr ⟨.list items, harg, hitem⟩, herror⟩
  | _ => exact ⟨_, List.mem_flatMap.mpr ⟨_, harg, List.mem_singleton_self _⟩, herror⟩

theorem not_isBlank_of_holdsError (h : a.HoldsError) : a.isBlank = false := by
  cases a with
  | list items =>
    obtain ⟨item, hitem, -⟩ := holdsError_list.mp h
    cases items with
    | nil => cases hitem
    | cons => rfl
  | error => rfl
  | _ =>
    obtain ⟨depth, herror⟩ := h
    cases depth <;> cases herror

/-- One failing item fails them all. -/
theorem mapM_fails {α : Type} {coerce : Value → Except ErrorKind α} {values : List Value}
    (hcoerce : ∀ value, Heeds value.HoldsError (coerce value) (coerce value.plain))
    (h : ∃ value ∈ values, value.HoldsError) : ∃ kind, values.mapM coerce = .error kind :=
  (Heeds.mapM fun value _ => hcoerce value).fails h

theorem heeds_numbers :
    Heeds (∃ arg ∈ args, arg.HoldsError) (numbers args) (numbers (args.map plain)) := by
  refine heeds_of_fails numbers fun h => mapM_fails (fun _ => heeds_toNumber) ?_
  obtain ⟨item, hitem, herror⟩ := exists_mem_flatten h
  have hblank := not_isBlank_of_holdsError herror
  exact ⟨item, List.mem_filter.mpr ⟨hitem, by simp [hblank]⟩, herror⟩

theorem heeds_toBools : Heeds (∃ arg ∈ args, arg.HoldsError) ((flatten args).mapM toBool)
    ((flatten (args.map plain)).mapM toBool) :=
  heeds_of_fails (fun args => (flatten args).mapM toBool) fun h =>
    mapM_fails (fun _ => heeds_toBool) (exists_mem_flatten h)

theorem heeds_unitOrDays :
    Heeds (a.SeenAt (some 2)) (unitOrDays [a]) (unitOrDays [a.plain]) :=
  heeds_asText.andThen _

theorem heeds_dateAdd : Heeds (a.HoldsError ∨ b.HoldsError) (dateAdd [a, b])
    (dateAdd [a.plain, b.plain]) := by
  cases b with
  | duration span =>
    refine (heeds_toDate.andThen _).congr (or_iff_left ?_)
    rintro ⟨depth, herror⟩
    cases depth <;> cases herror
  | _ => exact heeds_toDate.bind fun _ _ => heeds_toNumber.andThen _

theorem heeds_dateAddUnit : Heeds (a.HoldsError ∨ b.HoldsError ∨ c.SeenAt (some 2))
    (dateAdd [a, b, c]) (dateAdd [a.plain, b.plain, c.plain]) := by
  cases b <;> exact heeds_toDate.bind fun _ _ => heeds_toNumber.bind fun _ _ =>
    heeds_unitOrDays.andThen _

/-! ## Texts -/

theorem heeds_toPosition : Heeds a.HoldsError (toPosition a) (toPosition a.plain) :=
  heeds_toCount.andThen _

theorem heeds_value : Heeds (a.SeenAt (some 2)) (value [a]) (value [a.plain]) := by
  cases a with
  | number n =>
    refine Heeds.ignore.congr (iff_of_false ?_ not_false)
    intro h
    cases h
  | _ => exact heeds_asText.andThen _

theorem heeds_concatenate : Heeds (∃ arg ∈ args, arg.SeenAt (some 2)) (concatenate args)
    (concatenate (args.map plain)) :=
  (Heeds.mapM fun _ _ => heeds_asText).andThen _

theorem isNumber_plain (value : Value) : isNumber value.plain = isNumber value := by
  cases value <;> rfl

/-- Counting sees nothing, and finds no number where an error is. -/
theorem count_map_plain (args : List Value) : count (args.map plain) = count args := by
  have hcomp : isNumber ∘ plain = isNumber := funext isNumber_plain
  rw [count, count, flatten_map_plain, List.countP_map, hcomp]

/-- The errors that joining sees lie in the items that are joined. -/
theorem seenAt_three : a.SeenAt (some 3) ↔
    ∃ item ∈ (flatten [a]).filter fun item => !item.isBlank, item.SeenAt (some 2) := by
  have hjoined : (∃ item ∈ (flatten [a]).filter fun item => !item.isBlank, item.SeenAt (some 2)) ↔
      ∃ item ∈ flatten [a], item.SeenAt (some 2) := by
    constructor
    · rintro ⟨item, hitem, hseen⟩
      exact ⟨item, (List.mem_filter.mp hitem).1, hseen⟩
    · rintro ⟨item, hitem, hseen⟩
      have hblank := not_isBlank_of_holdsError hseen.holdsError
      exact ⟨item, List.mem_filter.mpr ⟨hitem, by simp [hblank]⟩, hseen⟩
  rw [hjoined]
  cases a with
  | list items => simp only [flatten, List.flatMap_singleton, SeenAt, errorWithin_list]
  | _ => simp [flatten, SeenAt, errorWithin]

theorem heeds_join (separator : String) :
    Heeds (a.SeenAt (some 3)) (join a separator) (join a.plain separator) := by
  have hfilter : ((flatten [a.plain]).filter fun item => !item.isBlank) =
      ((flatten [a]).filter fun item => !item.isBlank).map plain := by
    have hcomp : ((fun item : Value => !item.isBlank) ∘ plain) = fun item => !item.isBlank :=
      funext fun item => by rw [Function.comp, isBlank_plain]
    rw [show [a.plain] = [a].map plain from rfl, flatten_map_plain, List.filter_map, hcomp]
  rw [join, join, hfilter]
  exact ((Heeds.mapM fun _ _ => heeds_asText).andThen _).congr seenAt_three

theorem heeds_arrayJoin : Heeds (a.SeenAt (some 3) ∨ b.SeenAt (some 2)) (arrayJoin [a, b])
    (arrayJoin [a.plain, b.plain]) :=
  (heeds_asText.bind fun separator _ => heeds_join separator).congr or_comm

/-- Which occurrence is meant is asked only if the text to be substituted is not empty. -/
theorem heeds_substituteNth (hd : d.errorWithin 1 = false) :
    Heeds (a.SeenAt (some 2) ∨ b.SeenAt (some 2) ∨ c.SeenAt (some 2) ∨
        d.SeenAt (if Function.substitutesNothing [a, b, c, d] then some 1 else none))
      (substitute [a, b, c, d]) (substitute [a.plain, b.plain, c.plain, d.plain]) := by
  refine heeds_asText.bind fun s _ => heeds_asText.bind fun old hold =>
    heeds_asText.bind fun new _ => ?_
  have hnothing : Function.substitutesNothing [a, b, c, d] = old.isEmpty := by
    rw [Function.substitutesNothing, hold]
  rw [hnothing]
  cases hempty : old.isEmpty with
  | true =>
    simp only [if_true]
    refine Heeds.ignore.congr (iff_of_false ?_ not_false)
    intro hseen
    rw [SeenAt, hd] at hseen
    cases hseen
  | false =>
    simp only [Bool.false_eq_true, if_false]
    exact heeds_toPosition.andThen _

/-! ## Functions by their number of arguments -/

theorem looks_of_length {least greatest : Nat} (hmin : f.minArgs = least)
    (hmax : f.maxArgs = some greatest)
    (h : ∀ now args, least ≤ args.length → args.length ≤ greatest →
      (∀ arg ∈ args, arg.errorWithin 1 = false) →
      Heeds (f.Sees args) (f.run now args) (f.run now (args.map plain))) : f.Looks := by
  intro now args haccepts hflat
  obtain ⟨hleast, hgreatest⟩ := length_of_accepts hmin hmax haccepts
  exact h now args hleast hgreatest hflat

theorem looks_constant (hmin : f.minArgs = 0) (hmax : f.maxArgs = some 0) : f.Looks :=
  looks_of_length hmin hmax fun now args _ hle _ => by
    cases List.length_eq_zero_iff.mp (Nat.le_zero.mp hle)
    exact Heeds.ignore.congr (iff_of_false not_exists_getElem?_nil not_false)

theorem looks_single (hmin : f.minArgs = 1) (hmax : f.maxArgs = some 1)
    (h : ∀ now a, Heeds (a.SeenAt (f.sight [a] 0)) (f.run now [a]) (f.run now [a.plain])) :
    f.Looks :=
  looks_of_length hmin hmax fun now args hge hle _ => by
    match args, Nat.le_antisymm hle hge with
    | [a], _ => exact (h now a).congr sees_one

theorem looks_optional (hmin : f.minArgs = 1) (hmax : f.maxArgs = some 2)
    (h : ∀ now a, Heeds (a.SeenAt (f.sight [a] 0)) (f.run now [a]) (f.run now [a.plain]))
    (h' : ∀ now a b, Heeds (a.SeenAt (f.sight [a, b] 0) ∨ b.SeenAt (f.sight [a, b] 1))
      (f.run now [a, b]) (f.run now [a.plain, b.plain])) : f.Looks :=
  looks_of_length hmin hmax fun now args hge hle _ => by
    match args, (show args.length = 1 ∨ args.length = 2 by omega) with
    | [a], _ => exact (h now a).congr sees_one
    | [a, b], _ => exact (h' now a b).congr sees_two

theorem looks_pair (hmin : f.minArgs = 2) (hmax : f.maxArgs = some 2)
    (h : ∀ now a b, Heeds (a.SeenAt (f.sight [a, b] 0) ∨ b.SeenAt (f.sight [a, b] 1))
      (f.run now [a, b]) (f.run now [a.plain, b.plain])) : f.Looks :=
  looks_of_length hmin hmax fun now args hge hle _ => by
    match args, Nat.le_antisymm hle hge with
    | [a, b], _ => exact (h now a b).congr sees_two

theorem looks_optionalThird (hmin : f.minArgs = 2) (hmax : f.maxArgs = some 3)
    (h : ∀ now a b, Heeds (a.SeenAt (f.sight [a, b] 0) ∨ b.SeenAt (f.sight [a, b] 1))
      (f.run now [a, b]) (f.run now [a.plain, b.plain]))
    (h' : ∀ now a b c, Heeds (a.SeenAt (f.sight [a, b, c] 0) ∨ b.SeenAt (f.sight [a, b, c] 1) ∨
      c.SeenAt (f.sight [a, b, c] 2)) (f.run now [a, b, c])
      (f.run now [a.plain, b.plain, c.plain])) : f.Looks :=
  looks_of_length hmin hmax fun now args hge hle _ => by
    match args, (show args.length = 2 ∨ args.length = 3 by omega) with
    | [a, b], _ => exact (h now a b).congr sees_two
    | [a, b, c], _ => exact (h' now a b c).congr sees_three

/-- A function of any number of arguments, which looks equally deep in all of them. -/
theorem looks_all (bound : Option Nat) (hsight : ∀ args index, f.sight args index = bound)
    (h : ∀ now args, (∀ arg ∈ args, arg.errorWithin 1 = false) →
      Heeds (∃ arg ∈ args, arg.SeenAt bound) (f.run now args) (f.run now (args.map plain))) :
    f.Looks :=
  fun now args _ hflat => (h now args hflat).congr (sees_all (hsight args))

/-- Most functions of any number of arguments look as deep as the kind of their arguments says. -/
theorem sight_of_params {kind : ArgumentKind} (hparams : f.params = [kind])
    (hname : f.name ∉ ["COUNT", "CONCATENATE", "SUBSTITUTE"]) (args : List Value) (index : Nat) :
    f.sight args index = kind.sight := by
  simp only [List.mem_cons, List.not_mem_nil, or_false, not_or] at hname
  rw [Function.sight, if_neg hname.1, if_neg hname.2.1, if_neg fun h => hname.2.2 h.1,
    Function.kindAt, hparams]
  cases index <;> rfl

theorem looks_numbers (hparams : f.params = [.number])
    (hname : f.name ∉ ["COUNT", "CONCATENATE", "SUBSTITUTE"])
    {finish : List Decimal → Except ErrorKind Value}
    (hrun : ∀ now args, f.run now args = numbers args >>= finish) : f.Looks :=
  looks_all _ (sight_of_params hparams hname) fun now args _ => by
    rw [hrun, hrun]
    exact heeds_numbers.andThen finish

theorem looks_toBools (hparams : f.params = [.boolean])
    (hname : f.name ∉ ["COUNT", "CONCATENATE", "SUBSTITUTE"]) {finish : List Bool → Value}
    (hrun : ∀ now args, f.run now args = ((flatten args).mapM toBool).map finish) : f.Looks :=
  looks_all _ (sight_of_params hparams hname) fun now args _ => by
    rw [hrun, hrun]
    exact heeds_toBools.map finish

theorem looks_concatenate (hname : f.name = "CONCATENATE")
    (hrun : f.run = fun _ => concatenate) : f.Looks := by
  refine looks_all (some 2) (fun args index => ?_) fun now args _ => ?_
  · rw [Function.sight, hname]
    rfl
  · rw [hrun]
    exact heeds_concatenate

theorem looks_count (hname : f.name = "COUNT") (hrun : f.run = fun _ => count) : f.Looks := by
  refine looks_all (some 1) (fun _ _ => if_pos hname) fun now args hflat => ?_
  rw [hrun]
  show Heeds _ (count args) (count (args.map plain))
  rw [count_map_plain]
  refine Heeds.ignore.congr (iff_of_false ?_ not_false)
  rintro ⟨arg, harg, hseen⟩
  rw [SeenAt, hflat arg harg] at hseen
  cases hseen

theorem looks_mid (hsight : ∀ args, f.sight args 0 = some 2 ∧ f.sight args 1 = none ∧
      f.sight args 2 = none) (hmin : f.minArgs = 3) (hmax : f.maxArgs = some 3)
    (hrun : f.run = fun _ => mid) : f.Looks :=
  looks_of_length hmin hmax fun now args hge hle _ => by
    match args, Nat.le_antisymm hle hge with
    | [a, b, c], _ =>
      rw [sees_three, (hsight _).1, (hsight _).2.1, (hsight _).2.2, hrun]
      exact heeds_asText.bind fun _ _ => heeds_toPosition.bind fun _ _ => heeds_toCount.andThen _

theorem looks_replace (hsight : ∀ args, f.sight args 0 = some 2 ∧ f.sight args 1 = none ∧
      f.sight args 2 = none ∧ f.sight args 3 = some 2) (hmin : f.minArgs = 4)
    (hmax : f.maxArgs = some 4) (hrun : f.run = fun _ => replace) : f.Looks :=
  looks_of_length hmin hmax fun now args hge hle _ => by
    match args, Nat.le_antisymm hle hge with
    | [a, b, c, d], _ =>
      obtain ⟨ha, hb, hc, hd⟩ := hsight [a, b, c, d]
      rw [sees_four, ha, hb, hc, hd, hrun]
      exact heeds_asText.bind fun _ _ => heeds_toPosition.bind fun _ _ =>
        heeds_toCount.bind fun _ _ => heeds_asText.andThen _

theorem looks_substitute (hsight : ∀ args, f.sight args 0 = some 2 ∧ f.sight args 1 = some 2 ∧
      f.sight args 2 = some 2 ∧
      f.sight args 3 = if Function.substitutesNothing args then some 1 else none)
    (hmin : f.minArgs = 3) (hmax : f.maxArgs = some 4) (hrun : f.run = fun _ => substitute) :
    f.Looks :=
  looks_of_length hmin hmax fun now args hge hle hflat => by
    obtain ⟨ha, hb, hc, hd⟩ := hsight args
    match args, (show args.length = 3 ∨ args.length = 4 by omega) with
    | [a, b, c], _ =>
      rw [sees_three, ha, hb, hc, hrun]
      exact heeds_asText.bind fun _ _ => heeds_asText.bind fun _ _ => heeds_asText.andThen _
    | [a, b, c, d], _ =>
      rw [sees_four, ha, hb, hc, hd, hrun]
      exact heeds_substituteNth (hflat d (by simp))

theorem looks_of_error {kind : ErrorKind} (hrun : ∀ now args, f.run now args = .error kind) :
    f.Looks := fun now args _ _ => by
  rw [hrun, hrun]
  exact .error

theorem looks_of_mem : ∀ f ∈ functions, f.errors = .propagate → f.Looks := by
  simp only [functions, List.forall_mem_cons, List.not_mem_nil, reduceCtorEq, false_implies,
    implies_true, true_implies, true_and, and_true]
  -- one line for each function, in the order of the catalog
  exact ⟨
    looks_single rfl rfl fun _ _ => heeds_toNumber.map _,
    looks_toBools rfl (by decide) fun _ _ => rfl,
    looks_optional rfl rfl (fun _ _ => heeds_join _) fun _ _ _ => heeds_arrayJoin,
    looks_numbers rfl (by decide) fun _ _ => rfl,
    looks_constant rfl rfl,
    looks_concatenate rfl rfl,
    looks_count rfl rfl,
    looks_optionalThird rfl rfl (fun _ _ _ => heeds_dateAdd)
      fun _ _ _ _ => heeds_dateAddUnit,
    looks_optionalThird rfl rfl
      (fun _ _ _ => heeds_toDate.bind fun _ _ => heeds_toDate.andThen _)
      fun _ _ _ _ => heeds_toDate.bind fun _ _ => heeds_toDate.bind fun _ _ =>
        heeds_unitOrDays.andThen _,
    looks_single rfl rfl fun _ _ => heeds_toDate.map _,
    looks_constant rfl rfl,
    looks_optionalThird rfl rfl
      (fun _ _ _ => heeds_asText.bind fun _ _ => heeds_asText.andThen _)
      fun _ _ _ _ => heeds_asText.bind fun _ _ => heeds_asText.bind fun _ _ =>
        heeds_toPosition.andThen _,
    looks_optional rfl rfl (fun _ _ => heeds_toDate.map _)
      fun _ _ _ => heeds_toDate.bind fun _ _ => heeds_asText.andThen _,
    looks_of_error fun _ _ => rfl,
    looks_single rfl rfl fun _ _ => heeds_toNumber.map _,
    looks_optional rfl rfl (fun _ _ => heeds_asText.andThen _)
      fun _ _ _ => heeds_asText.bind fun _ _ => heeds_toCount.andThen _,
    looks_single rfl rfl fun _ _ => heeds_asText.map _,
    looks_single rfl rfl fun _ _ => heeds_asText.map _,
    looks_numbers rfl (by decide) fun _ _ => rfl,
    looks_mid (fun _ => ⟨rfl, rfl, rfl⟩) rfl rfl rfl,
    looks_numbers rfl (by decide) fun _ _ => rfl,
    looks_pair rfl rfl fun _ _ _ => heeds_toNumber.bind fun _ _ => heeds_toNumber.andThen _,
    looks_single rfl rfl fun _ _ => heeds_toDate.map _,
    looks_single rfl rfl fun _ _ => heeds_toBool.map _,
    looks_constant rfl rfl,
    looks_toBools rfl (by decide) fun _ _ => rfl,
    looks_replace (fun _ => ⟨rfl, rfl, rfl, rfl⟩) rfl rfl rfl,
    looks_optional rfl rfl (fun _ _ => heeds_asText.andThen _)
      fun _ _ _ => heeds_asText.bind fun _ _ => heeds_toCount.andThen _,
    looks_optional rfl rfl (fun _ _ => heeds_toNumber.andThen _)
      fun _ _ _ => heeds_toNumber.bind fun _ _ => heeds_toInteger.andThen _,
    looks_substitute (fun _ => ⟨rfl, rfl, rfl, by simp [Function.sight, Function.kindAt,
      ArgumentKind.sight]⟩) rfl rfl rfl,
    looks_numbers rfl (by decide) fun _ _ => rfl,
    looks_constant rfl rfl,
    looks_single rfl rfl fun _ _ => heeds_asText.map _,
    looks_constant rfl rfl,
    looks_single rfl rfl fun _ _ => heeds_asText.map _,
    looks_single rfl rfl fun _ _ => heeds_value,
    looks_single rfl rfl fun _ _ => heeds_toDate.map _⟩

/-! ## Calls -/

theorem one_le_sight {depth index : Nat} (h : f.sight args index = some depth) : 1 ≤ depth := by
  unfold Function.sight ArgumentKind.sight at h
  split at h
  · cases h
    decide
  · split at h
    · cases h
      decide
    · split at h
      · cases h
        decide
      · split at h <;> cases h <;> decide

/-- An error in a list among the arguments is seen by every function. -/
theorem sees_of_errorWithin_one {arg : Value} (harg : arg ∈ args)
    (h : arg.errorWithin 1 = true) : f.Sees args := by
  obtain ⟨index, hindex⟩ := List.mem_iff_getElem?.mp harg
  refine ⟨index, arg, hindex, ?_⟩
  cases hsight : f.sight args index with
  | none => exact ⟨1, h⟩
  | some depth => exact errorWithin_mono h (one_le_sight hsight)

/-- A call of a function that passes errors on gives an error if it sees one, and else the same as
with texts in place of all errors. -/
theorem heeded_apply (hf : f ∈ functions) (herrors : f.errors = .propagate)
    {now : Calendar.DateTime} (haccepts : f.accepts args.length = true) :
    Heeded (f.Sees args) (f.apply now args) (f.apply now (args.map plain)) := by
  have hplain : firstError? (args.map plain) = none := firstError?_eq_none.mpr fun arg harg => by
    obtain ⟨arg, -, rfl⟩ := List.mem_map.mp harg
    exact errorWithin_plain arg 1
  rw [Function.apply, Function.apply, herrors, hplain]
  cases hfirst : firstError? args with
  | some kind =>
    refine ⟨fun _ => rfl, fun hsees => ?_⟩
    have hflat : ∀ arg ∈ args, arg.errorWithin 1 = false := fun arg harg =>
      Bool.eq_false_iff.mpr fun h => hsees (sees_of_errorWithin_one harg h)
    rw [firstError?_eq_none.mpr hflat] at hfirst
    cases hfirst
  | none =>
    have hflat := firstError?_eq_none.mp hfirst
    exact (looks_of_mem f hf herrors now args haccepts hflat).ofResult

/-- An operator or a function of the library that passes errors on gives an error, if one lies no
deeper in nested lists than it looks. All others it takes for the texts of their codes. -/
theorem errors_heeded (a b : Value) (args : List Value) (now : Calendar.DateTime) :
    Heeded a.HoldsError a.applyNegate a.plain.applyNegate ∧
    (∀ op : BinaryOperator, Heeded (a.SeenAt op.sight ∨ b.SeenAt op.sight)
      (applyBinary op a b) (applyBinary op a.plain b.plain)) ∧
    ∀ f ∈ functions, f.errors = .propagate → f.accepts args.length = true →
      Heeded (f.Sees args) (f.apply now args) (f.apply now (args.map plain)) :=
  ⟨heeded_applyNegate, fun _ => heeded_applyBinary,
    fun _ hf herrors haccepts => heeded_apply hf herrors haccepts⟩

/-- The function that counts numbers. -/
def countFunction : Function :=
  { name := "COUNT", minArgs := 1, maxArgs := none, params := [.any], run := fun _ => count }

/-- What a lookup of a lookup gives, if the only value behind it is an error. -/
def nestedError : Value := .list [.list [.error .divisionByZero]]

theorem count_nestedError : nestedError.HoldsError ∧
    countFunction.apply midsummer [nestedError] = .number .zero := by
  have hmem : countFunction ∈ functions := by simp [functions, countFunction]
  have hunseen : ¬ countFunction.Sees [nestedError] := by
    rw [sees_one]
    show ¬ nestedError.errorWithin 1 = true
    decide
  obtain ⟨-, -, hcalls⟩ := errors_heeded .null .null [nestedError] midsummer
  have hplain := hcalls countFunction hmem rfl rfl
  exact ⟨⟨2, rfl⟩, (hplain.same hunseen).trans (by decide)⟩

end Library

end ComputedFields
