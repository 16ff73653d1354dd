import ComputedFields.Formula.Expr
import ComputedFields.Library.Catalog

/-! Evaluation of formulas. It always ends in a value. Fields are read through a view of the
record; a view may act on the state of a monad, so that a read can compute and keep the value of
another formula. `Expr.eval` is evaluation under a view that only looks. -/

namespace ComputedFields

/-- A record as a formula sees it. -/
structure View (m : Type → Type) where
  /-- The value of a field of the record. -/
  fieldValue : FieldId → m Value
  /-- The values of a field on the records that a link field leads to. -/
  linkedValues : FieldId → FieldId → m (List Value)

/-- The record in which nothing is set and nothing is linked. -/
def View.blank : View Id := ⟨fun _ => .null, fun _ _ => []⟩

namespace Expr

mutual

/-- Evaluates a formula. Both operands of an operator are evaluated, of a choice only the part
that is chosen, and the arguments of a call only when there are as many as the function takes. -/
def evalM {m : Type → Type} [Monad m] (view : View m) (now : Calendar.DateTime) :
    Expr → m Value
  | .literal value => pure value
  | .field f => view.fieldValue f
  | .lookup link f => do
    let items ← view.linkedValues link f
    pure (.list items)
  | .negate operand => do
    let value ← evalM view now operand
    pure value.applyNegate
  | .binary op left right => do
    let a ← evalM view now left
    let b ← evalM view now right
    pure (Value.applyBinary op a b)
  | .conditional condition yes none => do
    let test ← evalM view now condition
    match test.toBool with
    | .ok true => evalM view now yes
    | .ok false => pure .null
    | .error kind => pure (.error kind)
  | .conditional condition yes (some no) => do
    let test ← evalM view now condition
    match test.toBool with
    | .ok true => evalM view now yes
    | .ok false => evalM view now no
    | .error kind => pure (.error kind)
  | .call name args =>
    match Library.find? name with
    | none => pure (.error .unknownFunction)
    | some function =>
      if function.accepts args.length then do
        let values ← evalAllM view now args
        pure (function.apply now values)
      else pure (.error .arityMismatch)

/-- Evaluates formulas from left to right. -/
def evalAllM {m : Type → Type} [Monad m] (view : View m) (now : Calendar.DateTime) :
    List Expr → m (List Value)
  | [] => pure []
  | e :: es => do
    let value ← evalM view now e
    let values ← evalAllM view now es
    pure (value :: values)

end

/-- The value of a formula on a record, at a time. -/
def eval (view : View Id) (now : Calendar.DateTime) (e : Expr) : Value := e.evalM view now

end Expr

end ComputedFields
