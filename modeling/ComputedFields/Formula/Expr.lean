import ComputedFields.Formula.Operator
import ComputedFields.Schema

/-! Formulas as trees. -/

namespace ComputedFields

/-- A formula. -/
inductive Expr where
  | literal (value : Value)
  /-- A field of the same record. -/
  | field (field : FieldId)
  /-- A field of the records that a link field leads to. -/
  | lookup (link field : FieldId)
  | negate (operand : Expr)
  | binary (op : BinaryOperator) (left right : Expr)
  /-- A choice; only the part that is chosen is evaluated. -/
  | conditional (condition yes : Expr) (no : Option Expr)
  | call (name : String) (args : List Expr)

namespace Expr

instance : Inhabited Expr := ⟨.literal .null⟩

/-! ## Equality -/

mutual

/-- Whether two trees are equal. -/
def beq : Expr → Expr → Bool
  | .literal a, .literal b => a == b
  | .field a, .field b => a == b
  | .lookup l f, .lookup m g => l == m && f == g
  | .negate a, .negate b => beq a b
  | .binary o a b, .binary p c d => o == p && beq a c && beq b d
  | .conditional a b none, .conditional c d none => beq a c && beq b d
  | .conditional a b (some e), .conditional c d (some f) => beq a c && beq b d && beq e f
  | .call m as, .call n bs => m == n && beqAll as bs
  | _, _ => false

/-- Whether two lists of trees are equal item by item. -/
def beqAll : List Expr → List Expr → Bool
  | [], [] => true
  | a :: as, b :: bs => beq a b && beqAll as bs
  | _, _ => false

end

mutual

theorem beq_iff : ∀ a b : Expr, beq a b = true ↔ a = b
  | .literal _, b => by cases b <;> simp [beq]
  | .field _, b => by cases b <;> simp [beq]
  | .lookup _ _, b => by cases b <;> simp [beq]
  | .negate a, b => by
    cases b with
    | negate b => simp [beq, beq_iff a b]
    | _ => simp [beq]
  | .binary _ a b, c => by
    cases c with
    | binary _ c d => simp [beq, beq_iff a c, beq_iff b d, and_assoc]
    | _ => simp [beq]
  | .conditional a b none, c => by
    cases c with
    | conditional c d e => cases e <;> simp [beq, beq_iff a c, beq_iff b d]
    | _ => simp [beq]
  | .conditional a b (some e), c => by
    cases c with
    | conditional c d f =>
      cases f with
      | none => simp [beq]
      | some f => simp [beq, beq_iff a c, beq_iff b d, beq_iff e f, and_assoc]
    | _ => simp [beq]
  | .call _ as, b => by
    cases b with
    | call _ bs => simp [beq, beqAll_iff as bs]
    | _ => simp [beq]

theorem beqAll_iff : ∀ as bs : List Expr, beqAll as bs = true ↔ as = bs
  | [], bs => by cases bs <;> simp [beqAll]
  | a :: as, bs => by
    cases bs with
    | nil => simp [beqAll]
    | cons b bs => simp [beqAll, beq_iff a b, beqAll_iff as bs]

end

instance : DecidableEq Expr := fun a b => decidable_of_iff (beq a b = true) (beq_iff a b)

mutual

/-- The tree with every number among its literals in its shortest form. -/
def normalize : Expr → Expr
  | .literal value => .literal value.normalize
  | .field f => .field f
  | .lookup link f => .lookup link f
  | .negate operand => .negate operand.normalize
  | .binary op left right => .binary op left.normalize right.normalize
  | .conditional condition yes none => .conditional condition.normalize yes.normalize none
  | .conditional condition yes (some no) =>
    .conditional condition.normalize yes.normalize (some no.normalize)
  | .call name args => .call name (normalizeAll args)

/-- The trees with every number among their literals in its shortest form. -/
def normalizeAll : List Expr → List Expr
  | [] => []
  | e :: es => e.normalize :: normalizeAll es

end

/-- Whether two trees are the same but for the way their numbers are written. -/
def same (a b : Expr) : Bool := a.normalize == b.normalize

/-! ## Measures -/

mutual

/-- The nesting of the tree; a leaf has depth 1. -/
def depth : Expr → Nat
  | .literal _ | .field _ | .lookup _ _ => 1
  | .negate operand => operand.depth + 1
  | .binary _ left right => max left.depth right.depth + 1
  | .conditional condition yes none => max condition.depth yes.depth + 1
  | .conditional condition yes (some no) =>
    max condition.depth (max yes.depth no.depth) + 1
  | .call _ args => depthAll args + 1

/-- The depth of the deepest of some trees, zero for none. -/
def depthAll : List Expr → Nat
  | [] => 0
  | e :: es => max e.depth (depthAll es)

end

mutual

/-- The number of nodes. -/
def nodeCount : Expr → Nat
  | .literal _ | .field _ | .lookup _ _ => 1
  | .negate operand => operand.nodeCount + 1
  | .binary _ left right => left.nodeCount + right.nodeCount + 1
  | .conditional condition yes none => condition.nodeCount + yes.nodeCount + 1
  | .conditional condition yes (some no) =>
    condition.nodeCount + yes.nodeCount + no.nodeCount + 1
  | .call _ args => nodeCountAll args + 1

/-- The number of nodes of some trees. -/
def nodeCountAll : List Expr → Nat
  | [] => 0
  | e :: es => e.nodeCount + nodeCountAll es

end

mutual

/-- The tree and all its parts, each before its own parts and those from left to right. -/
def nodes : Expr → List Expr
  | .literal value => [.literal value]
  | .field f => [.field f]
  | .lookup link f => [.lookup link f]
  | .negate operand => .negate operand :: operand.nodes
  | .binary op left right => .binary op left right :: (left.nodes ++ right.nodes)
  | .conditional condition yes none =>
    .conditional condition yes none :: (condition.nodes ++ yes.nodes)
  | .conditional condition yes (some no) =>
    .conditional condition yes (some no) :: (condition.nodes ++ yes.nodes ++ no.nodes)
  | .call name args => .call name args :: nodesAll args

/-- The nodes of some trees, from left to right. -/
def nodesAll : List Expr → List Expr
  | [] => []
  | e :: es => e.nodes ++ nodesAll es

end

end Expr

end ComputedFields
