import ComputedFields.Formula.Expr
import ComputedFields.Library.Catalog
import ComputedFields.Ordered

/-! What a formula reads: its references, the fields behind them, and the clock. -/

namespace ComputedFields

/-- A field that a formula reads. -/
inductive Reference where
  /-- A field of the same record. -/
  | field (field : FieldId)
  /-- A field of the records that a link field leads to. -/
  | linked (link field : FieldId)
deriving DecidableEq, Repr

namespace Reference

/-- Fields of the same record come first. -/
def compare : Reference → Reference → Ordering
  | .field f, .field g => f.compare g
  | .field _, .linked _ _ => .lt
  | .linked _ _, .field _ => .gt
  | .linked l f, .linked m g => (l.compare m).then (f.compare g)

/-- The fields that a reference reads; following a link reads the link field too. -/
def fields : Reference → List FieldId
  | .field f => [f]
  | .linked link f => [link, f]

end Reference

namespace Expr

/-- The reference that a node is. -/
def reference? : Expr → Option Reference
  | .field f => some (.field f)
  | .lookup link f => some (.linked link f)
  | _ => none

/-- The references of a formula, in order and each once. -/
def references (e : Expr) : List Reference :=
  Ordered.ofList Reference.compare (e.nodes.filterMap reference?)

/-- Whether a node is a call of a function that reads the clock. -/
def callsClock : Expr → Bool
  | .call name _ => Library.isVolatile name
  | _ => false

/-- Whether a formula calls a function that reads the clock. -/
def isVolatile (e : Expr) : Bool := e.nodes.any callsClock

end Expr

/-- The fields behind some references, in order and each once. -/
def fieldsOf (references : List Reference) : List FieldId :=
  Ordered.ofList FieldId.compare (references.flatMap Reference.fields)

end ComputedFields
