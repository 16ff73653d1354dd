import ComputedFields.Proofs.Formula.Evaluation
import ComputedFields.Proofs.Library.Scale

/-!
# Evaluation without regard to scale

The value of a formula does not depend on how the numbers that it reads and those among its literals
are written: with or without zeros at their end, and with either sign of zero.
-/

namespace ComputedFields

open Value

/-- Two views show the same values, but for the way in which their numbers are written. -/
structure View.Same (view view' : View Id) : Prop where
  fieldValue : ∀ f, SameValue (view.fieldValue f) (view'.fieldValue f)
  linkedValues : ∀ link f,
    SameValue (.list (view.linkedValues link f)) (.list (view'.linkedValues link f))

theorem View.Same.refl (view : View Id) : view.Same view := ⟨fun _ => rfl, fun _ _ => rfl⟩

namespace Expr

variable {view view' : View Id} {now : Calendar.DateTime}

theorem evalAllM_eq_map (es : List Expr) :
    evalAllM view now es = es.map fun e => e.eval view now := by
  induction es with
  | nil => rfl
  | cons e es ih =>
    show e.eval view now :: evalAllM view now es = _
    rw [ih, List.map_cons]

/-- What a choice gives for the value of its condition. -/
theorem eval_conditional (condition yes : Expr) (no : Option Expr) :
    (conditional condition yes no).eval view now =
      match (condition.eval view now).toBool with
      | .ok true => yes.eval view now
      | .ok false => (no.map (·.eval view now)).getD .null
      | .error kind => .error kind := by
  cases no <;> simp only [eval, evalM] <;> rfl

theorem eval_call (name : String) (args : List Expr) :
    (call name args).eval view now =
      match Library.find? name with
      | none => .error .unknownFunction
      | some f =>
        if f.accepts args.length then f.apply now (args.map fun e => e.eval view now)
        else .error .arityMismatch := by
  rw [eval, evalM]
  cases Library.find? name with
  | none => rfl
  | some f =>
    show (if f.accepts args.length = true then f.apply now (evalAllM view now args)
      else .error .arityMismatch) = _
    rw [evalAllM_eq_map]

/-! ## Parts with the same values -/

section

variable {condition condition' yes yes' no no' : Expr} {name name' : String}
  {args args' : List Expr}

theorem sameValue_ifThen
    (hcondition : SameValue (condition.eval view now) (condition'.eval view' now))
    (hyes : SameValue (yes.eval view now) (yes'.eval view' now)) :
    SameValue ((conditional condition yes none).eval view now)
      ((conditional condition' yes' none).eval view' now) := by
  rw [eval_conditional, eval_conditional, toBool_of_sameValue hcondition]
  split
  · exact hyes
  · rfl
  · rfl

theorem sameValue_ifThenElse
    (hcondition : SameValue (condition.eval view now) (condition'.eval view' now))
    (hyes : SameValue (yes.eval view now) (yes'.eval view' now))
    (hno : SameValue (no.eval view now) (no'.eval view' now)) :
    SameValue ((conditional condition yes (some no)).eval view now)
      ((conditional condition' yes' (some no')).eval view' now) := by
  rw [eval_conditional, eval_conditional, toBool_of_sameValue hcondition]
  split
  · exact hyes
  · exact hno
  · rfl

/-- A call has the same value under each name of a function. -/
theorem sameValue_call (hname : Library.find? name = Library.find? name')
    (hargs : List.Forall₂ (fun e e' => SameValue (e.eval view now) (e'.eval view' now)) args
      args') :
    SameValue ((call name args).eval view now) ((call name' args').eval view' now) := by
  have hlength := hargs.length_eq
  have hvalues : (args.map fun e => e.eval view now).map Value.normalize =
      (args'.map fun e => e.eval view' now).map Value.normalize := by
    rw [List.map_map, List.map_map, ← List.forall₂_eq_eq_eq]
    exact List.forall₂_map_left_iff.mpr (List.forall₂_map_right_iff.mpr hargs)
  rw [eval_call, eval_call, ← hname, ← hlength]
  cases hf : Library.find? name with
  | none => rfl
  | some f =>
    cases haccepts : f.accepts args.length with
    | false =>
      simp only [haccepts]
      rfl
    | true =>
      simp only [haccepts, if_true]
      exact Library.sameValue_apply (Library.mem_of_find? hf) now (by rwa [List.length_map]) hvalues

end

/-- The tree in its shortest form has the same value on a view that shows the same. -/
theorem sameValue_eval_normalize (now : Calendar.DateTime) (h : view.Same view') (e : Expr) :
    SameValue (e.eval view now) (e.normalize.eval view' now) := by
  induction e with
  | literal value => exact value.normalize_normalize.symm
  | field f => exact h.fieldValue f
  | lookup link f => exact h.linkedValues link f
  | negate operand ih => exact sameValue_applyNegate ih
  | binary op left right ihleft ihright => exact sameValue_applyBinary op ihleft ihright
  | ifThen condition yes ihcondition ihyes => exact sameValue_ifThen ihcondition ihyes
  | ifThenElse condition yes no ihcondition ihyes ihno =>
    exact sameValue_ifThenElse ihcondition ihyes ihno
  | call name args ih =>
    rw [normalize, normalizeAll_eq_map]
    exact sameValue_call rfl (List.forall₂_map_right_iff.mpr (List.forall₂_same.mpr ih))

/-- The value of a formula is the same, but for the way in which its numbers are written, on records
that show the same and for a tree that is the same. -/
theorem eval_same {e e' : Expr} (h : e.same e' = true)
    (hfield : ∀ f, (view.fieldValue f).same (view'.fieldValue f) = true)
    (hlinked : ∀ link f, (Value.list (view.linkedValues link f)).same
      (.list (view'.linkedValues link f)) = true) :
    (e.eval view now).same (e'.eval view' now) = true := by
  have hview : view.Same view' :=
    ⟨fun f => sameValue_iff.mp (hfield f), fun link f => sameValue_iff.mp (hlinked link f)⟩
  have htree : e.normalize = e'.normalize := beq_iff_eq.mp h
  have hleft := sameValue_eval_normalize now hview e
  rw [htree] at hleft
  have hright := sameValue_eval_normalize now (View.Same.refl view') e'
  exact sameValue_iff.mpr (hleft.trans hright.symm)

/-- One and a half, in short and with a zero at its end. -/
def oneAndHalf : Decimal := ⟨false, 15, 1, by decide, by decide⟩

def oneAndHalfLong : Decimal := ⟨false, 150, 2, by decide, by decide⟩

/-- The products have two and four digits after the point, and are the same number. -/
theorem eval_product_same :
    ((binary .multiply (literal (.number oneAndHalfLong)) (field ⟨0⟩)).eval
        (.filled (.number oneAndHalfLong)) Library.midsummer).same
      ((binary .multiply (literal (.number oneAndHalf)) (field ⟨0⟩)).eval
        (.filled (.number oneAndHalf)) Library.midsummer) = true ∧
    (binary .multiply (literal (.number oneAndHalfLong)) (field ⟨0⟩)).eval
        (.filled (.number oneAndHalfLong)) Library.midsummer ≠
      (binary .multiply (literal (.number oneAndHalf)) (field ⟨0⟩)).eval
        (.filled (.number oneAndHalf)) Library.midsummer :=
  have hfield : (Value.number oneAndHalfLong).same (.number oneAndHalf) = true := by decide
  have hlinked : (Value.list [.number oneAndHalfLong]).same (.list [.number oneAndHalf]) = true := by
    decide
  ⟨eval_same (by decide) (fun _ => hfield) (fun _ _ => hlinked), by decide⟩

end Expr

end ComputedFields
