import ComputedFields.Formula.Expr

/-!
# Trees and their nodes

Induction over a tree, and what holds of every node of one: it holds of the root and of every node
of the parts.
-/

namespace ComputedFields.Expr

variable {p : Expr → Prop} {operand left right condition yes no : Expr}

/-- Induction over a tree. A choice has two or three parts, and what is to be shown of a call may be
taken for granted of all its arguments. -/
@[elab_as_elim, induction_eliminator]
theorem induct {motive : Expr → Prop}
    (literal : ∀ value, motive (literal value))
    (field : ∀ f, motive (field f))
    (lookup : ∀ link f, motive (lookup link f))
    (negate : ∀ operand, motive operand → motive (negate operand))
    (binary : ∀ op left right, motive left → motive right → motive (binary op left right))
    (ifThen : ∀ condition yes, motive condition → motive yes →
      motive (conditional condition yes none))
    (ifThenElse : ∀ condition yes no, motive condition → motive yes → motive no →
      motive (conditional condition yes (some no)))
    (call : ∀ name args, (∀ e ∈ args, motive e) → motive (call name args)) :
    ∀ e, motive e :=
  @Expr.rec motive (fun no => ∀ e ∈ no, motive e) (fun args => ∀ e ∈ args, motive e)
    literal field lookup negate binary
    (fun condition yes no hcondition hyes hno => by
      cases no with
      | none => exact ifThen condition yes hcondition hyes
      | some no => exact ifThenElse condition yes no hcondition hyes (hno no rfl))
    call (by intro e he; cases he) (by intro no hno e he; cases he; exact hno)
    (by intro e he; cases he) (fun e es he hes => List.forall_mem_cons.mpr ⟨he, hes⟩)

/-! ## Nodes -/

theorem self_mem_nodes (e : Expr) : e ∈ e.nodes := by
  cases e with
  | conditional condition yes no => cases no <;> exact List.mem_cons_self
  | _ => exact List.mem_cons_self

theorem mem_nodesAll {es : List Expr} {x : Expr} : x ∈ nodesAll es ↔ ∃ e ∈ es, x ∈ e.nodes := by
  induction es with
  | nil =>
    show x ∈ [] ↔ _
    simp
  | cons e es ih =>
    show x ∈ e.nodes ++ nodesAll es ↔ _
    simp [ih]

theorem forall_nodesAll {es : List Expr} :
    (∀ x ∈ nodesAll es, p x) ↔ ∀ e ∈ es, ∀ x ∈ e.nodes, p x := by
  constructor
  · intro h e he x hx
    exact h x (mem_nodesAll.mpr ⟨e, he, hx⟩)
  · intro h x hx
    obtain ⟨e, he, hx⟩ := mem_nodesAll.mp hx
    exact h e he x hx

theorem forall_nodes_negate :
    (∀ x ∈ (negate operand).nodes, p x) ↔ p (negate operand) ∧ ∀ x ∈ operand.nodes, p x :=
  List.forall_mem_cons

theorem forall_nodes_binary {op : BinaryOperator} :
    (∀ x ∈ (binary op left right).nodes, p x) ↔
      p (binary op left right) ∧ (∀ x ∈ left.nodes, p x) ∧ ∀ x ∈ right.nodes, p x :=
  List.forall_mem_cons.trans (and_congr_right' List.forall_mem_append)

theorem forall_nodes_ifThen :
    (∀ x ∈ (conditional condition yes none).nodes, p x) ↔
      p (conditional condition yes none) ∧
        (∀ x ∈ condition.nodes, p x) ∧ ∀ x ∈ yes.nodes, p x :=
  List.forall_mem_cons.trans (and_congr_right' List.forall_mem_append)

theorem forall_nodes_ifThenElse :
    (∀ x ∈ (conditional condition yes (some no)).nodes, p x) ↔
      p (conditional condition yes (some no)) ∧
        (∀ x ∈ condition.nodes, p x) ∧ (∀ x ∈ yes.nodes, p x) ∧ ∀ x ∈ no.nodes, p x := by
  refine List.forall_mem_cons.trans (and_congr_right' ?_)
  rw [List.forall_mem_append, List.forall_mem_append, and_assoc]

theorem forall_nodes_call {name : String} {args : List Expr} :
    (∀ x ∈ (call name args).nodes, p x) ↔
      p (call name args) ∧ ∀ e ∈ args, ∀ x ∈ e.nodes, p x :=
  List.forall_mem_cons.trans (and_congr_right' forall_nodesAll)

/-! ## Shortest forms -/

theorem normalizeAll_eq_map (es : List Expr) : normalizeAll es = es.map normalize := by
  induction es with
  | nil => rfl
  | cons e es ih => rw [normalizeAll, ih, List.map_cons]

end ComputedFields.Expr
