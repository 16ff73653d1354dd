import ComputedFields.Formula.Parser
import ComputedFields.Formula.Reference

/-! Formulas ready for use: a tree with all that it reads. -/

namespace ComputedFields

/-- A formula with its source text and all that it reads. -/
structure Formula where
  /-- The source text as it was written. -/
  source : String
  root : Expr
  /-- The references in the tree. -/
  references : List Reference
  /-- The fields behind the references, link fields included. -/
  dependencies : List FieldId
  /-- Whether the formula reads the clock. -/
  volatile : Bool
  references_eq : references = root.references
deriving DecidableEq

namespace Formula

/-- The formula with this tree. -/
def ofExpr (source : String) (root : Expr) : Formula where
  source
  root
  references := root.references
  dependencies := fieldsOf root.references
  volatile := root.isVolatile
  references_eq := rfl

/-- Whether the formula reads a field in any way. -/
def reads (formula : Formula) (f : FieldId) : Bool := formula.dependencies.contains f

/-- The formula that a source text describes. -/
def compile (resolver : Resolver) (limits : Limits) (source : String) :
    Except FormulaError Formula :=
  (Expr.parse resolver limits source).map (ofExpr source)

end Formula

end ComputedFields
