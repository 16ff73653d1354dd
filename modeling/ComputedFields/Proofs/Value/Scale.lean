import ComputedFields.Proofs.Decimal.Scale
import ComputedFields.Proofs.Value.Errors

/-!
# Values without regard to scale

A value may be put into its shortest form before it is coerced or given to an operator: what comes
out is the same, or differs only in how its numbers are written.
-/

namespace ComputedFields

/-- Two computations fail with the same error or give related results. -/
inductive Agree {α β : Type} (r : α → β → Prop) :
    Except ErrorKind α → Except ErrorKind β → Prop where
  | ok {a : α} {b : β} (h : r a b) : Agree r (.ok a) (.ok b)
  | error (kind : ErrorKind) : Agree r (.error kind) (.error kind)

namespace Agree

variable {α β γ δ : Type} {r : α → β → Prop} {r' : γ → δ → Prop}
  {x : Except ErrorKind α} {y : Except ErrorKind β}

theorem refl {r : α → α → Prop} (hr : ∀ a, r a a) (x : Except ErrorKind α) : Agree r x x := by
  cases x with
  | error kind => exact .error kind
  | ok a => exact .ok (hr a)

theorem bind {f : α → Except ErrorKind γ} {g : β → Except ErrorKind δ} (h : Agree r x y)
    (hfg : ∀ a b, r a b → Agree r' (f a) (g b)) : Agree r' (x >>= f) (y >>= g) := by
  cases h with
  | error kind => exact .error kind
  | ok h => exact hfg _ _ h

theorem map {f : α → γ} {g : β → δ} (h : Agree r x y) (hfg : ∀ a b, r a b → r' (f a) (g b)) :
    Agree r' (x.map f) (y.map g) := by
  cases h with
  | error kind => exact .error kind
  | ok h => exact .ok (hfg _ _ h)

/-- What does not tell related results apart gives the same for both. -/
theorem bind_eq {f : α → Except ErrorKind γ} {g : β → Except ErrorKind γ} (h : Agree r x y)
    (hfg : ∀ a b, r a b → f a = g b) : x >>= f = y >>= g := by
  cases h with
  | error kind => rfl
  | ok h => exact hfg _ _ h

theorem mapM {f : α → Except ErrorKind γ} {g : β → Except ErrorKind δ} {as : List α} {bs : List β}
    (h : List.Forall₂ r as bs) (hfg : ∀ a b, r a b → Agree r' (f a) (g b)) :
    Agree (List.Forall₂ r') (as.mapM f) (bs.mapM g) := by
  induction h with
  | nil => exact .ok .nil
  | cons hhead _ ih =>
    rw [List.mapM_cons, List.mapM_cons]
    exact (hfg _ _ hhead).bind fun _ _ ha => ih.bind fun _ _ has => .ok (.cons ha has)

end Agree

/-- Two computations of a number fail with the same error or give the same number. -/
abbrev AgreeNumber : Except ErrorKind Decimal → Except ErrorKind Decimal → Prop :=
  Agree fun a b => a.sameNumber b = true

theorem agreeNumber_refl (x : Except ErrorKind Decimal) : AgreeNumber x x :=
  .refl Decimal.sameNumber_refl x

namespace Value

variable {a b a' b' value : Value} {values items : List Value}

/-- The same value but for the way in which its numbers are written. -/
def SameValue (a b : Value) : Prop := a.normalize = b.normalize

theorem SameValue.refl (value : Value) : SameValue value value := rfl

theorem agree_refl (x : Except ErrorKind Value) : Agree SameValue x x := .refl SameValue.refl x

theorem agree_symm {x y : Except ErrorKind Value} (h : Agree SameValue x y) :
    Agree SameValue y x := by
  cases h with
  | error kind => exact .error kind
  | ok h => exact .ok h.symm

theorem agree_trans {x y z : Except ErrorKind Value} (hxy : Agree SameValue x y)
    (hyz : Agree SameValue y z) : Agree SameValue x z := by
  cases hxy with
  | error kind => exact hyz
  | ok hab =>
    cases hyz with
    | ok hbc => exact .ok (hab.trans hbc)

theorem sameValue_iff : a.same b = true ↔ SameValue a b := beq_iff_eq

theorem sameValue_number {m n : Decimal} (h : m.sameNumber n = true) :
    SameValue (.number m) (.number n) :=
  congrArg Value.number (Decimal.normalize_eq_normalize.mpr h)

/-! ## What does not show the scale -/

@[simp] theorem error?_normalize (value : Value) : value.normalize.error? = value.error? := by
  cases value <;> rfl

@[simp] theorem isNull_normalize (value : Value) : value.normalize.isNull = value.isNull := by
  cases value <;> rfl

@[simp] theorem isBlank_normalize (value : Value) : value.normalize.isBlank = value.isBlank := by
  cases value with
  | list items => simp [normalize_list, isBlank]
  | _ => rfl

theorem toText_normalize (value : Value) : value.normalize.toText = value.toText := by
  induction value using induct with
  | list items ih => rw [normalize_list, toText, toText, joinTexts_map ih]
  | single value hsingle =>
    cases value with
    | number n => exact congrArg Decimal.toText n.normalize_normalize
    | list items => exact absurd rfl (hsingle items)
    | _ => rfl

theorem flatten_map_normalize (values : List Value) :
    flatten (values.map normalize) = (flatten values).map normalize :=
  flatten_map normalize_list (fun _ => normalize_single) values

@[simp] theorem firstError?_normalize (values : List Value) :
    firstError? (values.map normalize) = firstError? values := by
  rw [firstError?, firstError?, flatten_map_normalize, List.findSome?_map]
  exact congrArg (List.findSome? · _) (funext error?_normalize)

@[simp] theorem asText_normalize (value : Value) : value.normalize.asText = value.asText := by
  cases value with
  | list items =>
    rw [normalize_list, asText, asText, firstError?_normalize, ← normalize_list, toText_normalize]
  | number n => exact congrArg Except.ok (toText_normalize (.number n))
  | _ => rfl

/-! ## Coercions -/

theorem scalar_normalize (value : Value) :
    value.normalize.scalar = value.scalar.map normalize := by
  induction value using induct with
  | list items ih =>
    match items with
    | [] => rfl
    | [item] =>
      rw [normalize_list, scalar]
      exact ih item (List.mem_singleton_self item)
    | _ :: _ :: _ => rfl
  | single value hsingle =>
    cases value with
    | list items => exact absurd rfl (hsingle items)
    | _ => rfl

theorem agree_scalarNumber (value : Value) :
    AgreeNumber value.scalarNumber value.normalize.scalarNumber := by
  cases value with
  | number n => exact .ok n.sameNumber_normalize
  | _ => exact agreeNumber_refl _

theorem agree_toNumber (value : Value) : AgreeNumber value.toNumber value.normalize.toNumber := by
  rw [toNumber, toNumber, scalar_normalize]
  cases value.scalar with
  | error kind => exact .error kind
  | ok value => exact agree_scalarNumber value

/-- A coercion of single values that does not show the scale does not show it in lists either. -/
theorem bind_scalar_normalize {α : Type} {coerce : Value → Except ErrorKind α}
    (h : ∀ value, coerce value.normalize = coerce value) (value : Value) :
    value.normalize.scalar.bind coerce = value.scalar.bind coerce := by
  rw [scalar_normalize]
  cases value.scalar with
  | error kind => rfl
  | ok value => exact h value

@[simp] theorem toBool_normalize (value : Value) : value.normalize.toBool = value.toBool := by
  refine bind_scalar_normalize (fun value => ?_) value
  cases value with
  | number n =>
    show Except.ok (!n.normalize.isZero) = .ok (!n.isZero)
    rw [← Decimal.isZero_congr n.sameNumber_normalize]
  | _ => rfl

@[simp] theorem toDate_normalize (value : Value) : value.normalize.toDate = value.toDate :=
  bind_scalar_normalize (fun value => by cases value <;> rfl) value

/-! ## Operators -/

theorem equal_normalize (a b : Value) : equal a.normalize b.normalize = equal a b := by
  have hsame (n : Decimal) := Decimal.sameNumber_symm n.sameNumber_normalize
  cases a <;> cases b <;> try rfl
  case number.number m n => exact Decimal.sameNumber_congr (hsame m) (hsame n)
  case number.text n s | text.number s n =>
    simp only [normalize, equal]
    cases parseNumber? s with
    | none => rfl
    | some m => exact Decimal.sameNumber_congr (Decimal.sameNumber_refl m) (hsame n)

theorem compare_normalize (a b : Value) : compare a.normalize b.normalize = compare a b := by
  cases a <;> cases b <;> try rfl
  case number.number m n =>
    exact congrArg Except.ok (Decimal.compare_congr
      (Decimal.sameNumber_symm m.sameNumber_normalize)
      (Decimal.sameNumber_symm n.sameNumber_normalize))

theorem agree_orOverflow {x y : Option Decimal} (h : Decimal.SameResult x y) :
    AgreeNumber (orOverflow x) (orOverflow y) := by
  cases h with
  | none => exact .error _
  | some h => exact .ok h

/-- An operation on two numbers that gives the same number for the same numbers. -/
def RespectsNumber (op : Decimal → Decimal → Except ErrorKind Decimal) : Prop :=
  ∀ ⦃m m' n n' : Decimal⦄, m.sameNumber m' = true → n.sameNumber n' = true →
    AgreeNumber (op m n) (op m' n')

theorem agree_arithmetic {op : Decimal → Decimal → Except ErrorKind Decimal}
    (h : RespectsNumber op) (a b : Value) :
    Agree SameValue (arithmetic op a b) (arithmetic op a.normalize b.normalize) := by
  rw [arithmetic, arithmetic, isNull_normalize, isNull_normalize]
  split
  · exact .error _
  · exact (agree_toNumber a).bind fun _ _ hm => (agree_toNumber b).bind fun _ _ hn =>
      (h hm hn).bind fun _ _ hresult => .ok (sameValue_number hresult)

theorem agree_add (a b : Value) : Agree SameValue (add a b) (add a.normalize b.normalize) := by
  have harithmetic := @agree_arithmetic (fun x y => orOverflow (x.add? y))
    fun _ _ _ _ hm hn => agree_orOverflow (Decimal.add?_same hm hn)
  cases a <;> cases b <;> first | exact agree_refl _ | exact harithmetic _ _

theorem agree_subtract (a b : Value) :
    Agree SameValue (subtract a b) (subtract a.normalize b.normalize) := by
  have harithmetic := @agree_arithmetic (fun x y => orOverflow (x.sub? y))
    fun _ _ _ _ hm hn => agree_orOverflow (Decimal.sub?_same hm hn)
  cases a <;> cases b <;> first | exact agree_refl _ | exact harithmetic _ _

theorem agree_multiply (a b : Value) :
    Agree SameValue (multiply a b) (multiply a.normalize b.normalize) :=
  agree_arithmetic (fun _ _ _ _ hm hn => agree_orOverflow (Decimal.mul?_same hm hn)) a b

theorem agree_divide (a b : Value) :
    Agree SameValue (divide a b) (divide a.normalize b.normalize) := by
  refine agree_arithmetic (fun _ _ _ _ hm hn => ?_) a b
  rw [← Decimal.isZero_congr hn]
  split
  · exact .error _
  · exact agree_orOverflow (Decimal.div?_same hm hn)

theorem agree_applyScalar (op : BinaryOperator) (a b : Value) :
    Agree SameValue (applyScalar op a b) (applyScalar op a.normalize b.normalize) := by
  cases op with
  | add => exact agree_add a b
  | subtract => exact agree_subtract a b
  | multiply => exact agree_multiply a b
  | divide => exact agree_divide a b
  | concat =>
    simp only [applyScalar, concat, asText_normalize]
    exact agree_refl _
  | equal | notEqual =>
    simp only [applyScalar, equal_normalize]
    exact agree_refl _
  | _ =>
    simp only [applyScalar, compare_normalize]
    exact agree_refl _

theorem sameValue_ofResult {x y : Except ErrorKind Value} (h : Agree SameValue x y) :
    SameValue (ofResult x) (ofResult y) := by
  cases h with
  | error kind => rfl
  | ok h => exact h

theorem sameValue_applyBinary_normalize (op : BinaryOperator) (a b : Value) :
    SameValue (applyBinary op a b) (applyBinary op a.normalize b.normalize) := by
  rw [applyBinary, applyBinary, error?_normalize, error?_normalize]
  cases a.error?.or b.error? with
  | some kind => rfl
  | none =>
    by_cases hop : op = .concat
    · simp only [hop, if_true, concat, asText_normalize]
      rfl
    · simp only [if_neg hop, scalar_normalize]
      cases a.scalar with
      | error kind => rfl
      | ok a =>
        cases b.scalar with
        | error kind => rfl
        | ok b =>
          simp only [Except.map, error?_normalize]
          cases a.error?.or b.error? with
          | some kind => rfl
          | none => exact sameValue_ofResult (agree_applyScalar op a b)

/-- An operator gives the same value for operands that are the same. -/
theorem sameValue_applyBinary (op : BinaryOperator) (ha : SameValue a a') (hb : SameValue b b') :
    SameValue (applyBinary op a b) (applyBinary op a' b') := by
  have hleft := sameValue_applyBinary_normalize op a b
  rw [ha, hb] at hleft
  exact hleft.trans (sameValue_applyBinary_normalize op a' b').symm

theorem agree_negateScalar (value : Value) :
    Agree SameValue (negateScalar value) (negateScalar value.normalize) := by
  have hneg := (agree_toNumber value).map fun _ _ h => sameValue_number (Decimal.sameNumber_neg h)
  cases value <;> first | exact agree_refl _ | exact hneg

theorem sameValue_applyNegate_normalize (value : Value) :
    SameValue value.applyNegate value.normalize.applyNegate := by
  rw [applyNegate, applyNegate, scalar_normalize]
  cases value.scalar with
  | error kind => rfl
  | ok value => exact sameValue_ofResult (agree_negateScalar value)

theorem sameValue_applyNegate (h : SameValue a a') : SameValue a.applyNegate a'.applyNegate := by
  have hleft := sameValue_applyNegate_normalize a
  rw [h] at hleft
  exact hleft.trans (sameValue_applyNegate_normalize a').symm

theorem toBool_of_sameValue (h : SameValue a a') : a.toBool = a'.toBool := by
  rw [← toBool_normalize a, h, toBool_normalize]

end Value

end ComputedFields
