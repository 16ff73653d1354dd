import ComputedFields.Formula.Operator
import ComputedFields.Proofs.Except
import ComputedFields.Proofs.Value.Normal
import Mathlib.Logic.Basic

/-!
# Errors in nested lists

How deep in lists an error lies, and how deep the coercions and the operators look for one. What
they do not see they take for the text of its code.
-/

namespace ComputedFields

/-- How many lists deep an operator looks for errors in its operands, if there is a bound. -/
def BinaryOperator.sight : BinaryOperator → Option Nat
  | .concat => some 2
  | _ => none

namespace Value

variable {depth depth' : Nat} {value : Value} {values items : List Value}

/-! ## Where errors lie -/

/-- Whether the value is an error or a list with one in it, at most so many lists deep. -/
def errorWithin : Nat → Value → Bool
  | _, .error _ => true
  | depth + 1, .list items => items.any (errorWithin depth)
  | _, _ => false

/-- The value is an error or a list with one in it, however deep. -/
def HoldsError (value : Value) : Prop := ∃ depth, value.errorWithin depth = true

/-- An error in the value lies no deeper than a bound, if there is one. -/
def SeenAt : Option Nat → Value → Prop
  | some depth, value => value.errorWithin depth = true
  | none, value => value.HoldsError

theorem errorWithin_list :
    (Value.list items).errorWithin (depth + 1) = true ↔
      ∃ item ∈ items, item.errorWithin depth = true := by
  rw [errorWithin, List.any_eq_true]

theorem errorWithin_single (h : ∀ items, value ≠ .list items) :
    value.errorWithin depth = value.isError := by
  cases value with
  | list items => exact absurd rfl (h items)
  | _ => cases depth <;> rfl

theorem errorWithin_mono (h : value.errorWithin depth = true) (hle : depth ≤ depth') :
    value.errorWithin depth' = true := by
  induction depth generalizing value depth' with
  | zero =>
    cases value with
    | error => cases depth' <;> rfl
    | _ => cases h
  | succ depth ih =>
    obtain ⟨depth', rfl⟩ := Nat.exists_eq_add_of_le' (Nat.le_trans (Nat.succ_pos depth) hle)
    cases value with
    | error => rfl
    | list items =>
      obtain ⟨item, hitem, herror⟩ := errorWithin_list.mp h
      exact errorWithin_list.mpr ⟨item, hitem, ih herror (Nat.le_of_succ_le_succ hle)⟩
    | _ => cases h

theorem holdsError_list : (Value.list items).HoldsError ↔ ∃ item ∈ items, item.HoldsError := by
  constructor
  · rintro ⟨depth, h⟩
    cases depth with
    | zero => cases h
    | succ depth =>
      obtain ⟨item, hitem, herror⟩ := errorWithin_list.mp h
      exact ⟨item, hitem, depth, herror⟩
  · rintro ⟨item, hitem, depth, herror⟩
    exact ⟨depth + 1, errorWithin_list.mpr ⟨item, hitem, herror⟩⟩

theorem holdsError_single (h : ∀ items, value ≠ .list items) :
    value.HoldsError ↔ value.isError = true := by
  simp only [HoldsError, errorWithin_single h, exists_const]

theorem SeenAt.holdsError {bound : Option Nat} (h : value.SeenAt bound) : value.HoldsError := by
  cases bound with
  | none => exact h
  | some depth => exact ⟨depth, h⟩

/-! ## Errors as texts -/

mutual

/-- The value with the text of its code in place of every error. -/
def plain : Value → Value
  | .error kind => .text kind.code
  | .list items => .list (plainAll items)
  | value => value

/-- The values with texts in place of all errors. -/
def plainAll : List Value → List Value
  | [] => []
  | value :: values => plain value :: plainAll values

end

theorem plainAll_eq_map (values : List Value) : plainAll values = values.map plain := by
  induction values with
  | nil => rfl
  | cons value values ih => rw [plainAll, ih, List.map_cons]

theorem plain_list (items : List Value) : (Value.list items).plain = .list (items.map plain) := by
  rw [plain, plainAll_eq_map]

theorem errorWithin_plain (value : Value) (depth : Nat) :
    value.plain.errorWithin depth = false := by
  induction depth generalizing value with
  | zero => cases value <;> rfl
  | succ depth ih =>
    cases value with
    | list items =>
      rw [plain_list, Bool.eq_false_iff]
      intro h
      obtain ⟨item, hitem, herror⟩ := errorWithin_list.mp h
      obtain ⟨item, -, rfl⟩ := List.mem_map.mp hitem
      rw [ih] at herror
      cases herror
    | _ => rfl

/-- Without an error there is nothing to replace. -/
theorem plain_eq_self (h : ¬ value.HoldsError) : value.plain = value := by
  induction value using induct with
  | list items ih =>
    have hitems : ∀ item ∈ items, item.plain = item := fun item hitem =>
      ih item hitem fun herror => h (holdsError_list.mpr ⟨item, hitem, herror⟩)
    rw [plain_list, List.map_congr_left hitems, List.map_id']
  | single value hsingle =>
    rw [holdsError_single hsingle] at h
    cases value with
    | error => exact absurd rfl h
    | list items => exact absurd rfl (hsingle items)
    | _ => rfl

theorem joinTexts_map {g : Value → Value} {items : List Value}
    (h : ∀ item ∈ items, (g item).toText = item.toText) :
    joinTexts (items.map g) = joinTexts items := by
  induction items with
  | nil => rfl
  | cons item items ih =>
    obtain ⟨hitem, hitems⟩ := List.forall_mem_cons.mp h
    cases items with
    | nil => simpa [joinTexts] using hitem
    | cons next items =>
      have hmore := ih hitems
      rw [List.map_cons] at hmore
      simp only [List.map_cons, joinTexts, hitem, hmore]

/-- An error has the text of its code. -/
theorem toText_plain (value : Value) : value.plain.toText = value.toText := by
  induction value using induct with
  | list items ih => rw [plain_list, toText, toText, joinTexts_map ih]
  | single value hsingle =>
    cases value with
    | list items => exact absurd rfl (hsingle items)
    | _ => rfl

theorem isBlank_plain (value : Value) : value.plain.isBlank = value.isBlank := by
  cases value with
  | list items => simp [plain_list, isBlank]
  | error kind => cases kind <;> rfl
  | _ => rfl

theorem flatten_cons (value : Value) (values : List Value) :
    flatten (value :: values) = flatten [value] ++ flatten values := by
  rw [flatten, flatten, flatten, List.flatMap_cons, List.flatMap_singleton]

/-- Changing every single value within lists changes the items of the flattened list. -/
theorem flatten_map {g : Value → Value} (hlist : ∀ items, g (.list items) = .list (items.map g))
    (hsingle : ∀ value, (∀ items, value ≠ .list items) → ∀ items, g value ≠ .list items)
    (values : List Value) : flatten (values.map g) = (flatten values).map g := by
  have hflat {value : Value} (h : ∀ items, value ≠ .list items) (rest : List Value) :
      flatten (value :: rest) = value :: flatten rest := by
    cases value with
    | list items => exact absurd rfl (h items)
    | _ => rfl
  induction values with
  | nil => rfl
  | cons value values ih =>
    by_cases h : ∃ items, value = .list items
    · obtain ⟨items, rfl⟩ := h
      rw [List.map_cons, hlist]
      show items.map g ++ flatten (values.map g) = (items ++ flatten values).map g
      rw [ih, List.map_append]
    · rw [not_exists] at h
      rw [List.map_cons, hflat (hsingle value h), ih, hflat h, List.map_cons]

theorem flatten_map_plain (values : List Value) :
    flatten (values.map plain) = (flatten values).map plain := by
  refine flatten_map plain_list (fun value h items => ?_) values
  cases value with
  | list items => exact absurd rfl (h items)
  | _ => nofun

/-! ## Errors that are looked for -/

theorem error?_eq_none : value.error? = none ↔ value.errorWithin 0 = false := by
  cases value <;> simp [error?, errorWithin]

/-- What a value adds to a flattened list has no error on top just if none lies within one list of
the value. -/
theorem forall_mem_flatten : (∀ item ∈ flatten values, item.error? = none) ↔
    ∀ value ∈ values, value.errorWithin 1 = false := by
  rw [flatten, List.forall_mem_flatMap]
  refine forall₂_congr fun value _ => ?_
  cases value with
  | list items => simp only [error?_eq_none, errorWithin, List.any_eq_false, Bool.not_eq_true]
  | _ => simp [error?, errorWithin]

/-- Among some values an error is found up to one list deep. -/
theorem firstError?_eq_none :
    firstError? values = none ↔ ∀ value ∈ values, value.errorWithin 1 = false :=
  List.findSome?_eq_none_iff.trans forall_mem_flatten

end Value

/-- Of two computations the first fails if an error is seen, and else does the same as the second,
which has texts in place of errors. -/
structure Heeds {α : Type} (seen : Prop) (x plain : Except ErrorKind α) : Prop where
  fails : seen → ∃ kind, x = .error kind
  same : ¬ seen → x = plain

/-- Of two results the first is an error if one is seen, and else the same as the second, which has
texts in place of errors. -/
structure Value.Heeded (seen : Prop) (result plain : Value) : Prop where
  isError : seen → result.isError = true
  same : ¬ seen → result = plain

namespace Heeds

variable {α β : Type} {seen seen' : Prop} {x plain : Except ErrorKind α}
  {f f' : α → Except ErrorKind β}

theorem ignore : Heeds False x x := ⟨False.elim, fun _ => rfl⟩

theorem congr (h : Heeds seen x plain) (hiff : seen' ↔ seen) : Heeds seen' x plain :=
  ⟨fun hseen => h.fails (hiff.mp hseen), fun hseen => h.same (mt hiff.mpr hseen)⟩

/-- A computation that fails heeds all errors. -/
theorem error {kind : ErrorKind} : Heeds seen (.error kind) (.error kind : Except ErrorKind α) :=
  ⟨fun _ => ⟨kind, rfl⟩, fun _ => rfl⟩

theorem bind (h : Heeds seen x plain) (hf : ∀ a, x = .ok a → Heeds seen' (f a) (f' a)) :
    Heeds (seen ∨ seen') (x >>= f) (plain >>= f') where
  fails hseen := by
    cases hx : x with
    | error kind => exact ⟨kind, rfl⟩
    | ok a =>
      rcases hseen with hseen | hseen
      · obtain ⟨kind, hkind⟩ := h.fails hseen
        cases hkind.symm.trans hx
      · exact (hf a hx).fails hseen
  same hseen := by
    obtain ⟨hnot, hnot'⟩ := not_or.mp hseen
    rw [← h.same hnot]
    cases hx : x with
    | error kind => rfl
    | ok a => exact (hf a hx).same hnot'

/-- What follows does not look at values any more. -/
theorem andThen (h : Heeds seen x plain) (f : α → Except ErrorKind β) :
    Heeds seen (x >>= f) (plain >>= f) :=
  (h.bind fun _ _ => .ignore).congr (or_false seen).symm.to_iff

theorem map (h : Heeds seen x plain) (g : α → β) : Heeds seen (x.map g) (plain.map g) where
  fails hseen := by
    obtain ⟨kind, rfl⟩ := h.fails hseen
    exact ⟨kind, rfl⟩
  same hseen := by rw [h.same hseen]

theorem mapM {f g : Value → Except ErrorKind α} {seen : Value → Prop} {values : List Value}
    (h : ∀ value ∈ values, Heeds (seen value) (f value) (g value.plain)) :
    Heeds (∃ value ∈ values, seen value) (values.mapM f) ((values.map Value.plain).mapM g) := by
  induction values with
  | nil => exact ignore.congr (by simp)
  | cons value values ih =>
    obtain ⟨hvalue, hvalues⟩ := List.forall_mem_cons.mp h
    rw [List.map_cons, List.mapM_cons, List.mapM_cons]
    have hmore := hvalue.bind fun a _ => (ih hvalues).andThen fun as => pure (a :: as)
    exact hmore.congr (by simp)

theorem ofResult {x plain : Except ErrorKind Value} (h : Heeds seen x plain) :
    Value.Heeded seen (Value.ofResult x) (Value.ofResult plain) where
  isError hseen := by
    obtain ⟨kind, rfl⟩ := h.fails hseen
    rfl
  same hseen := by rw [h.same hseen]

end Heeds

namespace Value

variable {value : Value}

/-! ## Coercions -/

/-- A value that holds an error stands for no single value, or for an error. -/
theorem scalar_of_holdsError (h : value.HoldsError) :
    (∃ kind, value.scalar = .error kind) ∨ ∃ kind, value.scalar = .ok (.error kind) := by
  induction value using induct with
  | list items ih =>
    match items with
    | [] =>
      obtain ⟨item, hitem, -⟩ := holdsError_list.mp h
      cases hitem
    | [item] =>
      obtain ⟨item', hitem, herror⟩ := holdsError_list.mp h
      cases List.mem_singleton.mp hitem
      rw [scalar]
      exact ih item hitem herror
    | _ :: _ :: _ => exact .inl ⟨_, rfl⟩
  | single value hsingle =>
    rw [holdsError_single hsingle] at h
    cases value with
    | error kind => exact .inr ⟨kind, rfl⟩
    | _ => cases h

/-- A coercion of single values sees errors at any depth, if it refuses errors. -/
theorem heeds_scalar {α : Type} (coerce : Value → Except ErrorKind α)
    (h : ∀ kind, coerce (.error kind) = .error kind) :
    Heeds value.HoldsError (value.scalar.bind coerce) (value.plain.scalar.bind coerce) where
  fails herror := by
    rcases scalar_of_holdsError herror with ⟨kind, hscalar⟩ | ⟨kind, hscalar⟩
    · exact ⟨kind, by rw [hscalar]; rfl⟩
    · exact ⟨kind, by rw [hscalar]; exact h kind⟩
  same hnone := by rw [plain_eq_self hnone]

theorem heeds_toNumber : Heeds value.HoldsError value.toNumber value.plain.toNumber :=
  heeds_scalar _ fun _ => rfl

theorem heeds_toBool : Heeds value.HoldsError value.toBool value.plain.toBool :=
  heeds_scalar _ fun _ => rfl

theorem heeds_toDate : Heeds value.HoldsError value.toDate value.plain.toDate :=
  heeds_scalar _ fun _ => rfl

theorem heeds_toInteger : Heeds value.HoldsError value.toInteger value.plain.toInteger :=
  heeds_toNumber.andThen _

theorem heeds_toCount : Heeds value.HoldsError value.toCount value.plain.toCount :=
  heeds_toInteger.andThen _

/-- The text of a value shows the errors that lie more than two lists deep. -/
theorem heeds_asText : Heeds (value.SeenAt (some 2)) value.asText value.plain.asText := by
  cases value with
  | error kind => exact ⟨fun _ => ⟨kind, rfl⟩, fun h => absurd rfl h⟩
  | list items =>
    have hplain : firstError? (items.map plain) = none :=
      firstError?_eq_none.mpr fun item hitem => by
        obtain ⟨item, -, rfl⟩ := List.mem_map.mp hitem
        exact errorWithin_plain item 1
    have hseen : (Value.list items).SeenAt (some 2) ↔ firstError? items ≠ none := by
      rw [SeenAt, errorWithin_list, Ne, firstError?_eq_none]
      simp
    rw [plain_list, asText, asText, hplain]
    cases herror : firstError? items with
    | some kind => exact ⟨fun _ => ⟨kind, rfl⟩, fun h => absurd (hseen.mpr (by simp [herror])) h⟩
    | none =>
      refine ⟨fun h => absurd herror (hseen.mp h), fun _ => ?_⟩
      rw [← plain_list, toText_plain]
  | _ => exact ⟨fun h => (by cases h), fun _ => rfl⟩

/-! ## Operators -/

theorem heeded_applyNegate : Heeded value.HoldsError value.applyNegate value.plain.applyNegate :=
  (heeds_scalar negateScalar fun _ => rfl).ofResult

theorem heeds_concat {a b : Value} :
    Heeds (a.SeenAt (some 2) ∨ b.SeenAt (some 2)) (concat a b) (concat a.plain b.plain) :=
  heeds_asText.bind fun _ _ => heeds_asText.andThen _

theorem error?_plain (value : Value) : value.plain.error? = none := by
  cases value <;> rfl

theorem seenAt_of_error? {kind : ErrorKind} {bound : Option Nat} (h : value.error? = some kind) :
    value.SeenAt bound := by
  cases value with
  | error =>
    cases bound with
    | none => exact ⟨0, rfl⟩
    | some depth => cases depth <;> rfl
  | _ => cases h

theorem seenAt_of_error?_or {a b : Value} {kind : ErrorKind} {bound : Option Nat}
    (h : a.error?.or b.error? = some kind) : a.SeenAt bound ∨ b.SeenAt bound := by
  cases ha : a.error? with
  | some kind => exact .inl (seenAt_of_error? ha)
  | none =>
    rw [ha] at h
    exact .inr (seenAt_of_error? h)

/-- An operator on single values sees every error in its operands. -/
theorem isError_applyBinary {op : BinaryOperator} {a b : Value} (hop : op ≠ .concat)
    (h : a.HoldsError ∨ b.HoldsError) : (applyBinary op a b).isError = true := by
  rw [applyBinary]
  cases a.error?.or b.error? with
  | some kind => rfl
  | none =>
    simp only [if_neg hop]
    rcases h with ha | hb
    · rcases scalar_of_holdsError ha with ⟨kind, hkind⟩ | ⟨kind, hkind⟩
      · rw [hkind]
        rfl
      · rw [hkind]
        cases b.scalar <;> rfl
    · rcases scalar_of_holdsError hb with ⟨kind, hkind⟩ | ⟨kind, hkind⟩
      · rw [hkind]
        cases a.scalar <;> rfl
      · rw [hkind]
        cases a.scalar with
        | error => rfl
        | ok single =>
          simp only
          cases single.error? <;> rfl

theorem heeded_applyBinary {op : BinaryOperator} {a b : Value} :
    Heeded (a.SeenAt op.sight ∨ b.SeenAt op.sight) (applyBinary op a b)
      (applyBinary op a.plain b.plain) := by
  by_cases hop : op = .concat
  · subst hop
    rw [applyBinary, applyBinary, error?_plain, error?_plain]
    cases herror : a.error?.or b.error? with
    | some kind => exact ⟨fun _ => rfl, fun h => absurd (seenAt_of_error?_or herror) h⟩
    | none => exact heeds_concat.ofResult
  · have hsight : op.sight = none := by
      cases op <;> first | rfl | exact absurd rfl hop
    rw [hsight]
    refine ⟨isError_applyBinary hop, fun h => ?_⟩
    obtain ⟨ha, hb⟩ := not_or.mp h
    rw [plain_eq_self ha, plain_eq_self hb]

end Value

end ComputedFields
