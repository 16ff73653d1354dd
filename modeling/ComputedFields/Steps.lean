/-! Steps on a state, one after the other, of which any may fail. What the steps before a failure
have written stays written, so that nothing is lost by it is something to prove. -/

namespace ComputedFields

/-- Steps on a state that may fail. The state after a failure is the one that the steps before it
have left. -/
abbrev Steps (σ ε α : Type) := EStateM ε σ α

namespace Steps

variable {σ τ ε α : Type}

/-- A check or a computation on the state that writes nothing. -/
def look (f : σ → Except ε α) : Steps σ ε α := fun s =>
  match f s with
  | .ok a => .ok a s
  | .error err => .error err s

/-- Steps on a part of the state. -/
def within (part : τ → σ) (put : τ → σ → τ) (x : Steps σ ε α) : Steps τ ε α := fun t =>
  match x.run (part t) with
  | .ok a s => .ok a (put t s)
  | .error err s => .error err (put t s)

/-- The state that steps leave, whether they fail or not. -/
def after (x : Steps σ ε α) (s : σ) : σ :=
  match x.run s with
  | .ok _ s' => s'
  | .error _ s' => s'

/-- Whether steps come to their end. -/
def succeeds (x : Steps σ ε α) (s : σ) : Bool :=
  match x.run s with
  | .ok _ _ => true
  | .error _ _ => false

end Steps

end ComputedFields
