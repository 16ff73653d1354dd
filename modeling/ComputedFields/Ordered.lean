/-! Lists in the order of a comparison: `ofList` without repetitions, for sets, and `sort` with
them. Both are insertion sorts. -/

namespace ComputedFields.Ordered

variable {α : Type}

/-- Puts an element into an ascending list, unless an equal one is there. -/
def insert (cmp : α → α → Ordering) (x : α) : List α → List α
  | [] => [x]
  | y :: ys =>
    match cmp x y with
    | .lt => x :: y :: ys
    | .eq => y :: ys
    | .gt => y :: insert cmp x ys

/-- The elements of a list in ascending order, each once. -/
def ofList (cmp : α → α → Ordering) (xs : List α) : List α := xs.foldr (insert cmp) []

/-- Puts an element into an ascending list, before those that are equal to it. -/
def place (cmp : α → α → Ordering) (x : α) : List α → List α
  | [] => [x]
  | y :: ys =>
    match cmp x y with
    | .gt => y :: place cmp x ys
    | _ => x :: y :: ys

/-- The elements of a list in ascending order; equal ones keep their order. -/
def sort (cmp : α → α → Ordering) (xs : List α) : List α := xs.foldr (place cmp) []

end ComputedFields.Ordered
