import ComputedFields.Proofs.Guarded.Dates
import ComputedFields.Proofs.Guarded.Numbers
import ComputedFields.Proofs.Guarded.Texts
import ComputedFields.Proofs.Library.Catalog

/-!
# Functions without a fault

Every function of the catalog with the operations that can fault in its body. A function that is
called with as many arguments as it takes finds all that it asks for.
-/

namespace ComputedFields

namespace Guarded

variable {args : List Value}

/-! ## Arguments -/

/-- A function that asks for its first argument and can do without the others. -/
def asksFirst (run : List Value → Except ErrorKind Value) (args : List Value) : Guarded Value := do
  let a ← argument args 0
  run (a :: args.drop 1)

def isError (args : List Value) : Guarded Value := do
  let items ← leading args 1
  return .boolean (Value.firstError? items).isSome

def ifError (args : List Value) : Guarded Value := do
  let items ← leading args 1
  argument args (if (Value.firstError? items).isSome then 1 else 0)

theorem faultless_asksFirst (run : List Value → Except ErrorKind Value) (h : 1 ≤ args.length) :
    Faultless (asksFirst run args) (run args) := by
  match args with
  | a :: rest => exact .step rfl (faultless_lift _)

theorem faultless_isError (h : args.length = 1) :
    Faultless (isError args) (Library.isError args) := by
  match args with
  | [a] => exact .step rfl (faultless_pure _)

theorem faultless_ifError (h : args.length = 2) :
    Faultless (ifError args) (Library.ifError args) := by
  match args with
  | [a, fallback] =>
    refine .step rfl ?_
    show Faultless (argument [a, fallback] (if (Value.firstError? [a]).isSome then 1 else 0))
      (.ok (if (Value.firstError? [a]).isSome then fallback else a))
    cases (Value.firstError? [a]).isSome <;> rfl

end Guarded

namespace Function

open Guarded

variable {f : Function} {args : List Value} {now : Calendar.DateTime}

/-- What the function computes, with the operations that can fault. -/
def runGuarded (f : Function) (now : Calendar.DateTime) (args : List Value) : Guarded Value :=
  match f.name with
  | "RIGHT" => right args
  | "MID" => mid args
  | "FIND" => find args
  | "SUBSTITUTE" => substitute args
  | "REPLACE" => replace args
  | "ARRAYJOIN" => arrayJoin args
  | "ROUND" => round args
  | "MOD" => mod args
  | "ISERROR" => isError args
  | "IFERROR" => ifError args
  | "DATE_DIFF" => dateDiff args
  | "DATE_ADD" => dateAdd args
  | "LEFT" | "UPPER" | "LOWER" | "LEN" | "TRIM" | "VALUE" | "ABS" | "INT" | "NOT" | "ISBLANK"
  | "FORMAT_DATE" | "YEAR" | "MONTH" | "DAY" => asksFirst (f.run now) args
  | _ => f.run now args

/-- The function does not fault for as many arguments as it takes. -/
def NeverFaults (f : Function) : Prop :=
  ∀ now args, f.accepts args.length = true → Faultless (f.runGuarded now args) (f.run now args)

theorem neverFaults_total (h : ∀ now args, f.runGuarded now args = liftM (f.run now args)) :
    f.NeverFaults := fun now args _ => by
  rw [h]
  exact faultless_lift _

theorem neverFaults_arity {least greatest : Nat} (hmin : f.minArgs = least)
    (hmax : f.maxArgs = some greatest)
    (h : ∀ now args, least ≤ args.length → args.length ≤ greatest →
      Faultless (f.runGuarded now args) (f.run now args)) : f.NeverFaults := by
  intro now args haccepts
  obtain ⟨hleast, hgreatest⟩ := Library.length_of_accepts hmin hmax haccepts
  exact h now args hleast hgreatest

theorem neverFaults_first {greatest : Nat} (hmin : f.minArgs = 1) (hmax : f.maxArgs = some greatest)
    (h : ∀ now, f.runGuarded now = asksFirst (f.run now)) : f.NeverFaults :=
  neverFaults_arity hmin hmax fun now args hleast _ => by
    rw [h]
    exact faultless_asksFirst _ hleast

theorem neverFaults_of_mem : ∀ f ∈ Library.functions, f.NeverFaults := by
  simp only [Library.functions, List.forall_mem_cons, List.not_mem_nil, false_implies, implies_true,
    and_true]
  -- one line for each function, in the order of the catalog
  exact ⟨
    neverFaults_first rfl rfl fun _ => rfl,
    neverFaults_total fun _ _ => rfl,
    neverFaults_arity rfl rfl fun _ _ hleast hgreatest => faultless_arrayJoin hleast hgreatest,
    neverFaults_total fun _ _ => rfl,
    neverFaults_total fun _ _ => rfl,
    neverFaults_total fun _ _ => rfl,
    neverFaults_total fun _ _ => rfl,
    neverFaults_arity rfl rfl fun _ _ hleast _ => faultless_dateAdd hleast,
    neverFaults_arity rfl rfl fun _ _ hleast _ => faultless_dateDiff hleast,
    neverFaults_first rfl rfl fun _ => rfl,
    neverFaults_total fun _ _ => rfl,
    neverFaults_arity rfl rfl fun _ _ hleast _ => faultless_find hleast,
    neverFaults_first rfl rfl fun _ => rfl,
    neverFaults_total fun _ _ => rfl,
    neverFaults_arity rfl rfl fun _ _ hleast hgreatest =>
      faultless_ifError (Nat.le_antisymm hgreatest hleast),
    neverFaults_first rfl rfl fun _ => rfl,
    neverFaults_first rfl rfl fun _ => rfl,
    neverFaults_arity rfl rfl fun _ _ hleast hgreatest =>
      faultless_isError (Nat.le_antisymm hgreatest hleast),
    neverFaults_first rfl rfl fun _ => rfl,
    neverFaults_first rfl rfl fun _ => rfl,
    neverFaults_first rfl rfl fun _ => rfl,
    neverFaults_total fun _ _ => rfl,
    neverFaults_arity rfl rfl fun _ _ hleast hgreatest =>
      faultless_mid (Nat.le_antisymm hgreatest hleast),
    neverFaults_total fun _ _ => rfl,
    neverFaults_arity rfl rfl fun _ _ hleast hgreatest =>
      faultless_mod (Nat.le_antisymm hgreatest hleast),
    neverFaults_first rfl rfl fun _ => rfl,
    neverFaults_first rfl rfl fun _ => rfl,
    neverFaults_total fun _ _ => rfl,
    neverFaults_total fun _ _ => rfl,
    neverFaults_arity rfl rfl fun _ _ hleast hgreatest =>
      faultless_replace (Nat.le_antisymm hgreatest hleast),
    neverFaults_arity rfl rfl fun _ _ hleast _ => faultless_right hleast,
    neverFaults_arity rfl rfl fun _ _ hleast hgreatest => faultless_round hleast hgreatest,
    neverFaults_arity rfl rfl fun _ _ hleast _ => faultless_substitute hleast,
    neverFaults_total fun _ _ => rfl,
    neverFaults_total fun _ _ => rfl,
    neverFaults_first rfl rfl fun _ => rfl,
    neverFaults_total fun _ _ => rfl,
    neverFaults_first rfl rfl fun _ => rfl,
    neverFaults_first rfl rfl fun _ => rfl,
    neverFaults_first rfl rfl fun _ => rfl⟩

/-- The value of a call, for evaluated arguments. -/
def applyGuarded (f : Function) (now : Calendar.DateTime) (args : List Value) :
    Except Fault Value :=
  match f.errors, Value.firstError? args with
  | .propagate, some kind => .ok (.error kind)
  | _, _ => (f.runGuarded now args).run.map Value.ofResult

theorem applyGuarded_eq (hf : f ∈ Library.functions) (haccepts : f.accepts args.length = true) :
    f.applyGuarded now args = .ok (f.apply now args) := by
  have hrun := neverFaults_of_mem f hf now args haccepts
  rw [Faultless] at hrun
  rw [applyGuarded, apply, hrun]
  cases f.errors <;> cases Value.firstError? args <;> rfl

end Function

end ComputedFields
