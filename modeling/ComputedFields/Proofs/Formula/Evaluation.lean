import ComputedFields.Formula.Evaluation
import ComputedFields.Formula.Reference
import ComputedFields.Proofs.Formula.Nodes
import ComputedFields.Proofs.Library.Catalog
import ComputedFields.Proofs.Ordering

/-!
# Evaluation depends on references only

Two evaluations of a formula side by side, in two monads, stay related if sequencing respects the
relation, both views are related on what the formula refers to, and both clocks show the same time
if the formula reads the clock.
-/

namespace ComputedFields

variable {m n : Type → Type} [Monad m] [Monad n]

/-- A relation between the computations of two monads that sequencing respects. -/
structure Sequential (R : (α : Type) → m α → n α → Prop) : Prop where
  pure : ∀ {α : Type} (a : α), R α (Pure.pure a) (Pure.pure a)
  bind : ∀ {α β : Type} {x : m α} {y : n α} {f : α → m β} {g : α → n β},
    R α x y → (∀ a, R β (f a) (g a)) → R β (x >>= f) (y >>= g)

theorem Sequential.mapM {R : (α : Type) → m α → n α → Prop} (hR : Sequential R) {α β : Type}
    {f : α → m β} {g : α → n β} {xs : List α} (h : ∀ x ∈ xs, R β (f x) (g x)) [LawfulMonad m]
    [LawfulMonad n] : R (List β) (xs.mapM f) (xs.mapM g) := by
  induction xs with
  | nil =>
    rw [List.mapM_nil, List.mapM_nil]
    exact hR.pure []
  | cons x xs ih =>
    rw [List.mapM_cons, List.mapM_cons]
    refine hR.bind (h x (by simp)) fun a => ?_
    refine hR.bind (ih fun x hx => h x (List.mem_cons_of_mem _ hx)) fun as => ?_
    exact hR.pure (a :: as)

/-- Two views are related on a reference. -/
def View.AgreeOn (R : (α : Type) → m α → n α → Prop) (view : View m) (view' : View n) :
    Reference → Prop
  | .field f => R Value (view.fieldValue f) (view'.fieldValue f)
  | .linked link f => R (List Value) (view.linkedValues link f) (view'.linkedValues link f)

/-- A reference of a formula is one of its nodes. -/
theorem mem_references {e : Expr} {reference : Reference} :
    reference ∈ e.references ↔ ∃ x ∈ e.nodes, x.reference? = some reference := by
  rw [Expr.references, Ordered.mem_ofList, List.mem_filterMap]

section

variable {R : (α : Type) → m α → n α → Prop} {view : View m} {view' : View n}
  {now now' : Calendar.DateTime}

theorem evalAllM_related (hR : Sequential R) {es : List Expr}
    (h : ∀ e ∈ es, R Value (e.evalM view now) (e.evalM view' now')) :
    R (List Value) (Expr.evalAllM view now es) (Expr.evalAllM view' now' es) := by
  induction es with
  | nil =>
    rw [Expr.evalAllM, Expr.evalAllM]
    exact hR.pure _
  | cons e es ih =>
    obtain ⟨he, hes⟩ := List.forall_mem_cons.mp h
    rw [Expr.evalAllM, Expr.evalAllM]
    exact hR.bind he fun a => hR.bind (ih hes) fun as => hR.pure _

/-- Two calls with the same arguments give the same, unless they read clocks that differ. -/
theorem apply_eq_of_clock {name : String} {function : Function} {args : List Expr}
    {values : List Value} (hf : Library.find? name = some function)
    (hclock : (Expr.call name args).callsClock = true → now = now') :
    function.apply now values = function.apply now' values := by
  cases hvolatile : Library.isVolatile name with
  | true => rw [hclock hvolatile]
  | false => exact Library.apply_eq_of_not_isVolatile hf hvolatile

/-- Both evaluations of a formula are related if the views are on every node that is a reference,
and the clocks agree if a node reads the clock. -/
theorem evalM_related_of_nodes (hR : Sequential R) (e : Expr)
    (h : ∀ x ∈ e.nodes, (∀ reference, x.reference? = some reference →
      View.AgreeOn R view view' reference) ∧ (x.callsClock = true → now = now')) :
    R Value (e.evalM view now) (e.evalM view' now') := by
  induction e with
  | literal value =>
    rw [Expr.evalM, Expr.evalM]
    exact hR.pure value
  | field f =>
    rw [Expr.evalM, Expr.evalM]
    exact (h (.field f) (Expr.self_mem_nodes _)).1 (.field f) rfl
  | lookup link f =>
    rw [Expr.evalM, Expr.evalM]
    have hlinked := (h (.lookup link f) (Expr.self_mem_nodes _)).1 (.linked link f) rfl
    exact hR.bind hlinked fun items => hR.pure _
  | negate operand ih =>
    obtain ⟨-, hoperand⟩ := Expr.forall_nodes_negate.mp h
    rw [Expr.evalM, Expr.evalM]
    exact hR.bind (ih hoperand) fun a => hR.pure _
  | binary op left right ihleft ihright =>
    obtain ⟨-, hleft, hright⟩ := Expr.forall_nodes_binary.mp h
    rw [Expr.evalM, Expr.evalM]
    exact hR.bind (ihleft hleft) fun a => hR.bind (ihright hright) fun b => hR.pure _
  | ifThen condition yes ihcondition ihyes =>
    obtain ⟨-, hcondition, hyes⟩ := Expr.forall_nodes_ifThen.mp h
    rw [Expr.evalM, Expr.evalM]
    refine hR.bind (ihcondition hcondition) fun a => ?_
    -- both evaluations see the same condition, so they choose the same part
    cases a.toBool with
    | error kind => exact hR.pure _
    | ok test =>
      cases test with
      | true => exact ihyes hyes
      | false => exact hR.pure _
  | ifThenElse condition yes no ihcondition ihyes ihno =>
    obtain ⟨-, hcondition, hyes, hno⟩ := Expr.forall_nodes_ifThenElse.mp h
    rw [Expr.evalM, Expr.evalM]
    refine hR.bind (ihcondition hcondition) fun a => ?_
    cases a.toBool with
    | error kind => exact hR.pure _
    | ok test =>
      cases test with
      | true => exact ihyes hyes
      | false => exact ihno hno
  | call name args ih =>
    obtain ⟨⟨-, hclock⟩, hargs⟩ := Expr.forall_nodes_call.mp h
    rw [Expr.evalM, Expr.evalM]
    cases hf : Library.find? name with
    | none => exact hR.pure _
    | some function =>
      simp only
      split
      · have hevaluated := evalAllM_related hR fun e he => ih e he (hargs e he)
        refine hR.bind hevaluated fun as => ?_
        rw [apply_eq_of_clock hf hclock]
        exact hR.pure _
      · exact hR.pure _

/-- Both evaluations of a formula are related if the views are on its references, and the clocks
agree if the formula reads the clock. -/
theorem Expr.evalM_related (hR : Sequential R) (e : Expr)
    (h : ∀ reference ∈ e.references, View.AgreeOn R view view' reference)
    (hclock : e.isVolatile = true → now = now') :
    R Value (e.evalM view now) (e.evalM view' now') := by
  refine evalM_related_of_nodes hR e fun x hx => ⟨fun reference href => ?_, fun hcalls => ?_⟩
  · exact h reference (mem_references.mpr ⟨x, hx, href⟩)
  · exact hclock (List.any_eq_true.mpr ⟨x, hx, hcalls⟩)

end

/-! ## Values -/

/-- Equality of values as a relation between two evaluations that only look. -/
theorem sequential_eq : Sequential fun α (x y : Id α) => x = y where
  pure := fun _ => rfl
  bind := by
    intro α β x y f g hxy hfg
    rw [hxy]
    exact hfg y

/-- The value of a formula depends on what it refers to only. -/
theorem Expr.eval_congr {view view' : View Id} {now : Calendar.DateTime} (e : Expr)
    (h : ∀ reference ∈ e.references,
      View.AgreeOn (fun α (x y : Id α) => x = y) view view' reference) :
    e.eval view now = e.eval view' now :=
  e.evalM_related sequential_eq h fun _ => rfl

/-- A formula has one value on all records that look the same to its references and at all times;
just the formulas that are marked as reading the clock need the time too. -/
theorem Expr.eval_eq_of_agree {view view' : View Id} {now now' : Calendar.DateTime} (e : Expr)
    (hfield : ∀ f, .field f ∈ e.references → view.fieldValue f = view'.fieldValue f)
    (hlinked : ∀ link f, .linked link f ∈ e.references →
      view.linkedValues link f = view'.linkedValues link f)
    (hclock : e.isVolatile = true → now = now') :
    e.eval view now = e.eval view' now' := by
  refine e.evalM_related sequential_eq (fun reference hmem => ?_) hclock
  cases reference with
  | field f => exact hfield f hmem
  | linked link f => exact hlinked link f hmem

/-- Noon of the same day. -/
def midsummerNoon : Calendar.DateTime where
  date := Library.midsummer.date
  time := { Library.midsummer.time with seconds := 43200, seconds_lt := by decide }

/-- A record on which one field is set. -/
def View.ofField (field : FieldId) (value : Value) : View Id :=
  ⟨fun f => if f = field then value else .null, fun _ _ => []⟩

/-- A record on which all fields are set and all links lead somewhere. -/
def View.filled (value : Value) : View Id := ⟨fun _ => value, fun _ _ => [value]⟩

theorem Expr.eval_upper_of_agree :
    (Expr.call "UPPER" [.field ⟨4⟩]).eval (.filled (.text "abc")) Library.midsummer =
      (Expr.call "UPPER" [.field ⟨4⟩]).eval (.ofField ⟨4⟩ (.text "abc")) midsummerNoon := by
  have hreferences : (Expr.call "UPPER" [.field ⟨4⟩]).references = [.field ⟨4⟩] := by decide
  refine Expr.eval_eq_of_agree _ (fun f hf => ?_) (fun link f hlinked => ?_) fun hvolatile => ?_
  · rw [hreferences] at hf
    cases List.mem_singleton.mp hf
    rfl
  · rw [hreferences] at hlinked
    cases List.mem_singleton.mp hlinked
  · exact absurd hvolatile (by decide)

/-- A formula that is marked as reading the clock may give another value at another time. -/
theorem Expr.eval_now_differs :
    ¬ ∀ (e : Expr) (view view' : View Id) (now now' : Calendar.DateTime),
      (∀ f, .field f ∈ e.references → view.fieldValue f = view'.fieldValue f) →
      (∀ link f, .linked link f ∈ e.references →
        view.linkedValues link f = view'.linkedValues link f) →
      (e.isVolatile = false → now = now') → e.eval view now = e.eval view' now' := by
  intro h
  have hnow := h (.call "NOW" []) .blank .blank Library.midsummer midsummerNoon (fun _ _ => rfl)
    (fun _ _ _ => rfl) (fun hvolatile => absurd hvolatile (by decide))
  exact absurd hnow (by decide)

end ComputedFields
