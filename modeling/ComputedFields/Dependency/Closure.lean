/-! What can be reached along a relation given by successor lists. The search stops with none as
soon as it has found more than a given number of elements. -/

namespace ComputedFields

variable {α : Type} [DecidableEq α]

/-- The successors of an element that have not been found yet, each once. -/
def freshSuccessors (next : α → List α) (found : List α) (x : α) : List α :=
  (next x).eraseDups.filter fun y => !found.contains y

/-- Adds to `found` all that is reached in one or more steps from `todo` and from what is found
on the way, unless that is more than `budget` elements. -/
def reachWithin (next : α → List α) (budget : Nat) (found todo : List α) : Option (List α) :=
  match todo with
  | [] => some found
  | x :: rest =>
    if (freshSuccessors next found x).length ≤ budget then
      reachWithin next (budget - (freshSuccessors next found x).length)
        (found ++ freshSuccessors next found x) (rest ++ freshSuccessors next found x)
    else none
termination_by budget + todo.length
decreasing_by simp only [List.length_append, List.length_cons]; omega

/-- What is reached in one or more steps from some elements, unless it is more than `budget`
elements. -/
def reach? (next : α → List α) (budget : Nat) (start : List α) : Option (List α) :=
  reachWithin next budget [] start

end ComputedFields
