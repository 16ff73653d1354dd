/-! Sets of characters as sorted ranges of code points. -/

namespace ComputedFields.Text

/-- The code points from the first to the second, both included. -/
abbrev CodeRange := Nat × Nat

/-- Whether a code point lies in one of the ranges, which ascend: the search ends at the first
range that starts above it. -/
def inRanges (ranges : List CodeRange) (n : Nat) : Bool :=
  match ranges with
  | [] => false
  | (low, high) :: rest => if n < low then false else n ≤ high || inRanges rest n

end ComputedFields.Text
