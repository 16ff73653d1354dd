import ComputedFields.Proofs.Formula.Evaluation
import ComputedFields.Proofs.Guarded.Catalog

/-!
# Evaluation without a fault

Evaluation of formulas with all the operations that can fault: those in the bodies of functions and
the negation of numbers and spans. On every record and at every time it comes to the value of the
formula.
-/

namespace ComputedFields

namespace Guarded

/-! ## Negation -/

/-- The negation of a value as a number. -/
def negateNumber (value : Value) : Guarded Value := do
  let n ← value.toNumber
  let result ← decimalNegation n
  return .number result

/-- The negation of a single value. -/
def negateScalar : Value → Guarded Value
  | .error kind => throw kind
  | .null => throw .nullOperand
  | .duration d => do
    let span ← spanNegation d
    return .duration span
  | value => negateNumber value

/-- The negation of any value. -/
def applyNegate (operand : Value) : Except Fault Value :=
  Value.ofResult <$> ExceptT.run do
    let value ← operand.scalar
    negateScalar value

theorem decimalNegation_eq (d : Decimal) : decimalNegation d = .ok d.neg := if_pos d.mantissa_lt

theorem spanNegation_eq (d : Calendar.Duration) : spanNegation d = .ok d.neg := by
  have hrange : -Calendar.Duration.limit ≤ -d.nanos ∧ -d.nanos ≤ Calendar.Duration.limit :=
    ⟨d.neg.ge, d.neg.le⟩
  rw [spanNegation, Calendar.Duration.ofNanos?, dif_pos hrange]
  rfl

theorem faultless_negateNumber (value : Value) :
    Faultless (negateNumber value) (value.toNumber.map fun n => .number n.neg) := by
  have hmap : value.toNumber.map (fun n => Value.number n.neg) =
      value.toNumber >>= fun n => .ok (.number n.neg) := by
    cases value.toNumber <;> rfl
  rw [hmap]
  exact (faultless_lift _).bind fun n _ => .step (decimalNegation_eq n) (faultless_pure _)

theorem faultless_negateScalar (value : Value) :
    Faultless (negateScalar value) (Value.negateScalar value) := by
  cases value with
  | error kind => rfl
  | null => rfl
  | duration d => exact .step (spanNegation_eq d) (faultless_pure _)
  | _ => exact faultless_negateNumber _

theorem applyNegate_eq (operand : Value) : applyNegate operand = .ok operand.applyNegate := by
  have hnegate := (faultless_lift operand.scalar).bind fun value _ => faultless_negateScalar value
  rw [Faultless] at hnegate
  rw [applyNegate, hnegate]
  rfl

end Guarded

/-! ## Formulas -/

namespace Expr

variable {m : Type → Type} [Monad m]

mutual

/-- Evaluates a formula with the operations that can fault. -/
def evalGuardedM (view : View m) (now : Calendar.DateTime) : Expr → ExceptT Fault m Value
  | .literal value => pure value
  | .field f => view.fieldValue f
  | .lookup link f => do
    let items ← view.linkedValues link f
    pure (.list items)
  | .negate operand => do
    let value ← evalGuardedM view now operand
    Guarded.applyNegate value
  | .binary op left right => do
    let a ← evalGuardedM view now left
    let b ← evalGuardedM view now right
    pure (Value.applyBinary op a b)
  | .conditional condition yes none => do
    let test ← evalGuardedM view now condition
    match test.toBool with
    | .ok true => evalGuardedM view now yes
    | .ok false => pure .null
    | .error kind => pure (.error kind)
  | .conditional condition yes (some no) => do
    let test ← evalGuardedM view now condition
    match test.toBool with
    | .ok true => evalGuardedM view now yes
    | .ok false => evalGuardedM view now no
    | .error kind => pure (.error kind)
  | .call name args =>
    match Library.find? name with
    | none => pure (.error .unknownFunction)
    | some function =>
      if function.accepts args.length then do
        let values ← evalGuardedAllM view now args
        function.applyGuarded now values
      else pure (.error .arityMismatch)

/-- Evaluates formulas from left to right with the operations that can fault. -/
def evalGuardedAllM (view : View m) (now : Calendar.DateTime) :
    List Expr → ExceptT Fault m (List Value)
  | [] => pure []
  | e :: es => do
    let value ← evalGuardedM view now e
    let values ← evalGuardedAllM view now es
    pure (value :: values)

end

variable {view : View m} {now : Calendar.DateTime}

/-- There are as many values as formulas. -/
theorem length_evalAllM [LawfulMonad m] (es : List Expr) :
    SatisfiesM (fun values => values.length = es.length) (evalAllM view now es) := by
  induction es with
  | nil =>
    rw [evalAllM]
    exact .pure rfl
  | cons e es ih =>
    rw [evalAllM]
    exact SatisfiesM.trivial.bind fun value _ => ih.bind fun values hlength =>
      .pure (congrArg Nat.succ hlength)

theorem evalGuardedAllM_eq [LawfulMonad m] {es : List Expr}
    (h : ∀ e ∈ es, e.evalGuardedM view now = liftM (e.evalM view now)) :
    evalGuardedAllM view now es = liftM (evalAllM view now es) := by
  induction es with
  | nil =>
    rw [evalGuardedAllM, evalAllM, liftM_pure]
  | cons e es ih =>
    obtain ⟨he, hes⟩ := List.forall_mem_cons.mp h
    rw [evalGuardedAllM, evalAllM, he, ih hes]
    simp only [liftM_bind, liftM_pure]

theorem evalGuardedM_eq [LawfulMonad m] (e : Expr) :
    e.evalGuardedM view now = liftM (e.evalM view now) := by
  induction e with
  | literal value => rw [evalGuardedM, evalM, liftM_pure]
  | field f => rw [evalGuardedM, evalM]
  | lookup link f => simp only [evalGuardedM, evalM, liftM_bind, liftM_pure]
  | negate operand ih =>
    simp only [evalGuardedM, evalM, ih, Guarded.applyNegate_eq, liftM_bind, liftM_pure]
    rfl
  | binary op left right ihleft ihright =>
    simp only [evalGuardedM, evalM, ihleft, ihright, liftM_bind, liftM_pure]
  | ifThen condition yes ihcondition ihyes =>
    rw [evalGuardedM, evalM, ihcondition, liftM_bind]
    congr 1
    funext test
    cases test.toBool with
    | error kind => exact (liftM_pure _).symm
    | ok chosen =>
      cases chosen with
      | true => exact ihyes
      | false => exact (liftM_pure _).symm
  | ifThenElse condition yes no ihcondition ihyes ihno =>
    rw [evalGuardedM, evalM, ihcondition, liftM_bind]
    congr 1
    funext test
    cases test.toBool with
    | error kind => exact (liftM_pure _).symm
    | ok chosen =>
      cases chosen with
      | true => exact ihyes
      | false => exact ihno
  | call name args ih =>
    rw [evalGuardedM, evalM]
    cases hf : Library.find? name with
    | none => exact (liftM_pure _).symm
    | some function =>
      simp only
      split
      · rename_i haccepts
        -- the arguments come with their number, which the function has accepted
        obtain ⟨counted, hcounted⟩ := @length_evalAllM m _ view now _ args
        rw [evalGuardedAllM_eq ih, ← hcounted, bind_map_left, liftM_bind, liftM_map, bind_map_left]
        congr 1
        funext values
        have hvalues : function.accepts values.val.length = true := by rwa [values.property]
        rw [Function.applyGuarded_eq (Library.mem_of_find? hf) hvalues, liftM_pure]
        rfl
      · exact (liftM_pure _).symm

/-- Evaluation never faults, whatever the formula, the record and the time: with every operation
held to its domain it ends with the value that the formula has, and reads the record in the same
way. -/
theorem eval_never_faults [LawfulMonad m] (view : View m) (now : Calendar.DateTime) (e : Expr) :
    (e.evalGuardedM view now).run = Except.ok <$> e.evalM view now := by
  rw [evalGuardedM_eq]
  rfl

/-- A search for two characters of three bytes. -/
def accentSearch : Expr := call "FIND" [literal (.text "éb"), field ⟨0⟩]

theorem eval_accentSearch_never_faults :
    LawfulMonad Id ∧
      (accentSearch.evalGuardedM (.filled (.text "àéb")) Library.midsummer).run =
        .ok (Value.ofInt 2) :=
  have hvalue : accentSearch.eval (.filled (.text "àéb")) Library.midsummer = Value.ofInt 2 := by
    decide
  ⟨inferInstance, (eval_never_faults (m := Id) _ _ _).trans (congrArg Except.ok hvalue)⟩

end Expr

end ComputedFields
