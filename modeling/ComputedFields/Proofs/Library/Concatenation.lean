import ComputedFields.Proofs.Formula.Scale
import ComputedFields.Proofs.Value.FirstError

/-!
# Two ways to join texts

A call that joins texts and the operators between the same texts give the same text, and both fail
if an error lies in one of the values no more than two lists deep. They may report different errors:
the call looks at all values, one list deep, before it makes texts of them, and the first operator
looks at its two operands themselves.
-/

namespace ComputedFields

namespace Value

variable {depth : Nat} {value a b : Value} {values rest : List Value}

/-! ## The first error -/

/-- The first error in a value, at most so many lists deep. -/
def firstWithin? : Nat → Value → Option ErrorKind
  | _, .error kind => some kind
  | depth + 1, .list items => items.findSome? (firstWithin? depth)
  | _, _ => none

theorem findSome?_cons_or {α β : Type} (f : α → Option β) (a : α) (as : List α) :
    (a :: as).findSome? f = (f a).or (as.findSome? f) := by
  rw [List.findSome?_cons]
  cases f a <;> rfl

theorem isSome_firstWithin? (depth : Nat) (value : Value) :
    (value.firstWithin? depth).isSome = value.errorWithin depth := by
  induction depth generalizing value with
  | zero => cases value <;> rfl
  | succ depth ih =>
    cases value with
    | list items =>
      rw [firstWithin?, errorWithin, List.isSome_findSome?]
      exact congrArg _ (funext ih)
    | _ => rfl

theorem firstWithin?_zero (value : Value) : value.firstWithin? 0 = value.error? := by
  cases value <;> rfl

theorem firstError?_eq (values : List Value) :
    firstError? values = values.findSome? (firstWithin? 1) := by
  induction values with
  | nil => rfl
  | cons value values ih =>
    have hvalue : firstError? [value] = value.firstWithin? 1 := by
      cases value with
      | list items => simp [firstError?, flatten, firstWithin?, funext firstWithin?_zero]
      | _ => rfl
    have hsplit : firstError? (value :: values) =
        (firstError? [value]).or (firstError? values) := by
      rw [firstError?, flatten_cons, List.findSome?_append]
      rfl
    rw [hsplit, hvalue, ih, findSome?_cons_or]

/-- A value has a text if no error lies in it at most two lists deep. -/
theorem asText_eq (value : Value) : value.asText =
    match value.firstWithin? 2 with
    | some kind => .error kind
    | none => .ok value.toText := by
  cases value with
  | list items =>
    rw [asText, firstError?_eq]
    rfl
  | _ => rfl

theorem mapM_asText (values : List Value) : values.mapM asText =
    match values.findSome? (firstWithin? 2) with
    | some kind => .error kind
    | none => .ok (values.map toText) := by
  induction values with
  | nil => rfl
  | cons value values ih =>
    rw [List.mapM_cons, ih, asText_eq, List.findSome?_cons]
    cases value.firstWithin? 2 with
    | some kind => rfl
    | none => cases values.findSome? (firstWithin? 2) <;> rfl

/-! ## The joined text -/

/-- An error, or else the texts of some values, one after the other. -/
def textOr : Option ErrorKind → List Value → Value
  | some kind, _ => .error kind
  | none, values => .text (String.join (values.map toText))

/-- The error that a call reports: one that lies at most one list deep comes before all others. -/
def callError? (values : List Value) : Option ErrorKind :=
  (values.findSome? (firstWithin? 1)).or (values.findSome? (firstWithin? 2))

/-- The error that operators report: one of the first two values that lies in no list comes before
all others. -/
def chainError? (values : List Value) : Option ErrorKind :=
  ((values.take 2).findSome? error?).or (values.findSome? (firstWithin? 2))

theorem textOr_eq_iff {x y : Option ErrorKind} : textOr x values = textOr y values ↔ x = y := by
  cases x <;> cases y <;> simp [textOr]

/-- Both report an error if one lies in the values at most two lists deep. -/
theorem isSome_callError? (values : List Value) :
    (callError? values).isSome = values.any (errorWithin 2) := by
  have hdeeper : values.any (errorWithin 1) = true → values.any (errorWithin 2) = true := by
    rw [List.any_eq_true, List.any_eq_true]
    rintro ⟨value, hvalue, herror⟩
    exact ⟨value, hvalue, errorWithin_mono herror (by decide)⟩
  rw [callError?, Option.isSome_or, List.isSome_findSome?, List.isSome_findSome?]
  simp only [isSome_firstWithin?]
  exact Bool.or_eq_right_iff_imp.mpr hdeeper

theorem isSome_chainError? (values : List Value) :
    (chainError? values).isSome = values.any (errorWithin 2) := by
  have hdeeper : (values.take 2).any (errorWithin 0) = true →
      values.any (errorWithin 2) = true := by
    rw [List.any_eq_true, List.any_eq_true]
    rintro ⟨value, hvalue, herror⟩
    exact ⟨value, List.mem_of_mem_take hvalue, errorWithin_mono herror (by decide)⟩
  rw [chainError?, Option.isSome_or, List.isSome_findSome?, List.isSome_findSome?]
  simp only [isSome_firstWithin?, ← firstWithin?_zero]
  exact Bool.or_eq_right_iff_imp.mpr hdeeper

/-! ## Operators -/

theorem foldl_concat_error (kind : ErrorKind) (values : List Value) :
    values.foldl (applyBinary .concat) (.error kind) = .error kind := by
  induction values with
  | nil => rfl
  | cons value values ih => exact ih

theorem error?_or_firstWithin? (value : Value) :
    value.error?.or (value.firstWithin? 2) = value.firstWithin? 2 := by
  cases value <;> rfl

/-- Two texts are joined, up to the errors in them. -/
theorem applyBinary_concat (a b : Value) : applyBinary .concat a b =
    match (a.error?.or b.error?).or ((a.firstWithin? 2).or (b.firstWithin? 2)) with
    | some kind => .error kind
    | none => .text (a.toText ++ b.toText) := by
  rw [applyBinary]
  cases a.error?.or b.error? with
  | some kind => rfl
  | none =>
    show ofResult (concat a b) = _
    rw [concat, asText_eq, asText_eq]
    cases a.firstWithin? 2 with
    | some kind => rfl
    | none => cases b.firstWithin? 2 <;> rfl

/-- What follows a text is joined to it, up to the first error. -/
theorem foldl_concat_text (s : String) (values : List Value) :
    values.foldl (applyBinary .concat) (.text s) =
      match values.findSome? (firstWithin? 2) with
      | some kind => .error kind
      | none => .text (s ++ String.join (values.map toText)) := by
  induction values generalizing s with
  | nil => simp
  | cons value values ih =>
    have hstep : applyBinary .concat (.text s) value =
        match value.firstWithin? 2 with
        | some kind => .error kind
        | none => .text (s ++ value.toText) := by
      have hfirst : ((Value.text s).error?.or value.error?).or
          (((Value.text s).firstWithin? 2).or (value.firstWithin? 2)) = value.firstWithin? 2 :=
        error?_or_firstWithin? value
      rw [applyBinary_concat, hfirst]
      rfl
    rw [List.foldl_cons, hstep, List.findSome?_cons]
    cases value.firstWithin? 2 with
    | some kind => exact foldl_concat_error kind values
    | none =>
      dsimp only
      rw [ih, List.map_cons, String.join_cons, String.append_assoc]

/-- A chain of operators gives the joined text or the error that it reports. -/
theorem foldl_concat (a b : Value) (rest : List Value) :
    rest.foldl (applyBinary .concat) (applyBinary .concat a b) =
      textOr (chainError? (a :: b :: rest)) (a :: b :: rest) := by
  have herror : chainError? (a :: b :: rest) =
      ((a.error?.or b.error?).or ((a.firstWithin? 2).or (b.firstWithin? 2))).or
        (rest.findSome? (firstWithin? 2)) := by
    rw [chainError?, List.take_succ_cons, List.take_succ_cons, List.take_zero]
    simp only [findSome?_cons_or, List.findSome?_nil, Option.or_none, Option.or_assoc]
  rw [applyBinary_concat, herror]
  cases (a.error?.or b.error?).or ((a.firstWithin? 2).or (b.firstWithin? 2)) with
  | some kind => exact foldl_concat_error kind rest
  | none =>
    dsimp only
    rw [foldl_concat_text, Option.none_or]
    cases rest.findSome? (firstWithin? 2) with
    | some kind => rfl
    | none =>
      rw [textOr, List.map_cons, List.map_cons, String.join_cons, String.join_cons,
        String.append_assoc]

end Value

namespace Library

open Value

/-- A call gives the joined text or the error that it reports. -/
theorem apply_concatenate {f : Function} (hf : find? "CONCATENATE" = some f)
    (now : Calendar.DateTime) (values : List Value) :
    f.apply now values = textOr (callError? values) values := by
  cases hf
  have herrors : (concatenate values) = match values.findSome? (firstWithin? 2) with
      | some kind => .error kind
      | none => .ok (.text (String.join (values.map toText))) := by
    rw [concatenate, mapM_asText]
    cases values.findSome? (firstWithin? 2) <;> rfl
  rw [Function.apply, callError?, firstError?_eq]
  cases values.findSome? (firstWithin? 1) with
  | some kind => rfl
  | none =>
    dsimp only
    rw [herrors]
    cases values.findSome? (firstWithin? 2) <;> rfl

end Library

namespace Expr

open Value

variable {view : View Id} {now : Calendar.DateTime}

/-- A chain of operators, from the left. -/
def chain (op : BinaryOperator) (first : Expr) (rest : List Expr) : Expr :=
  rest.foldl (binary op) first

theorem eval_chain (op : BinaryOperator) (first : Expr) (rest : List Expr) :
    (chain op first rest).eval view now =
      (rest.map fun e => e.eval view now).foldl (applyBinary op) (first.eval view now) := by
  induction rest generalizing first with
  | nil => rfl
  | cons e rest ih => exact ih (binary op first e)

/-- A call that joins texts and the operators between the same texts give the same value just if
they report the same error or none, and else they are both errors. -/
theorem eval_concatenate_chain (first second : Expr) (rest : List Expr) :
    ((call "CONCATENATE" (first :: second :: rest)).eval view now =
        (chain .concat first (second :: rest)).eval view now ↔
      callError? ((first :: second :: rest).map fun e => e.eval view now) =
        chainError? ((first :: second :: rest).map fun e => e.eval view now)) ∧
    ((call "CONCATENATE" (first :: second :: rest)).eval view now =
        (chain .concat first (second :: rest)).eval view now ∨
      ((call "CONCATENATE" (first :: second :: rest)).eval view now).isError = true ∧
        ((chain .concat first (second :: rest)).eval view now).isError = true) := by
  have hcall : (call "CONCATENATE" (first :: second :: rest)).eval view now =
      textOr (callError? ((first :: second :: rest).map fun e => e.eval view now))
        ((first :: second :: rest).map fun e => e.eval view now) := by
    rw [eval_call]
    exact Library.apply_concatenate rfl now _
  have hchain : (chain .concat first (second :: rest)).eval view now =
      textOr (chainError? ((first :: second :: rest).map fun e => e.eval view now))
        ((first :: second :: rest).map fun e => e.eval view now) := by
    rw [eval_chain]
    exact foldl_concat _ _ _
  rw [hcall, hchain]
  generalize (first :: second :: rest).map (fun e => e.eval view now) = values
  have hboth := (isSome_callError? values).trans (isSome_chainError? values).symm
  refine ⟨textOr_eq_iff, ?_⟩
  cases hx : callError? values with
  | none =>
    rw [hx] at hboth
    have hnone : chainError? values = none := Option.not_isSome_iff_eq_none.mp (by simp [← hboth])
    rw [hnone]
    exact .inl rfl
  | some kind =>
    rw [hx] at hboth
    obtain ⟨other, hy⟩ := Option.isSome_iff_exists.mp hboth.symm
    rw [hy]
    exact .inr ⟨rfl, rfl⟩

/-- A tax that a lookup finds to be an error, and a division by zero. -/
def lookedUpTax : Expr := lookup ⟨8⟩ ⟨2⟩

def oneByZero : Expr := binary .divide (literal (.number .one)) (literal (.number .zero))

/-- The call reports the error that is looked up, the operator the one on its right. -/
theorem concatenate_lookedUpTax :
    (call "CONCATENATE" [lookedUpTax, oneByZero]).eval (.filled (.error .nullOperand))
        Library.midsummer ≠
      (binary .concat lookedUpTax oneByZero).eval (.filled (.error .nullOperand))
        Library.midsummer := fun h =>
  have herrors := (eval_concatenate_chain lookedUpTax oneByZero []).1.mp h
  absurd herrors (by decide)

end Expr

end ComputedFields
