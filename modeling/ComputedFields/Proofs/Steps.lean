import ComputedFields.Steps
import Mathlib

/-!
# Steps that are all or nothing

Steps that write only after the last of them that may fail leave the state as it was wherever they
fail. A check writes nothing, steps on a part of a state write nothing else, and writes do not fail.
-/

namespace ComputedFields

namespace Steps

variable {σ τ ε α β : Type}

/-- What steps end in that either do what a function says or fail with nothing written. -/
def allOrNothing (s : σ) : Except ε (α × σ) → EStateM.Result ε σ α
  | .ok (a, s') => .ok a s'
  | .error err => .error err s

@[simp] theorem run_look (f : σ → Except ε α) (s : σ) :
    (look f).run s = allOrNothing s ((f s).map (·, s)) := by
  cases h : f s <;> simp [look, EStateM.run, h, allOrNothing, Except.map]

/-- Steps on a part are all or nothing if they are on the whole. -/
theorem run_within (part : τ → σ) (put : τ → σ → τ) (hput : ∀ t, put t (part t) = t)
    {x : Steps σ ε α} {t : τ} {outcome : Except ε (α × σ)}
    (h : x.run (part t) = allOrNothing (part t) outcome) :
    (within part put x).run t =
      allOrNothing t (outcome.map fun (a, s) => (a, put t s)) := by
  rw [EStateM.run] at h ⊢
  cases outcome <;> simp [within, EStateM.run, h, allOrNothing, Except.map, hput]

theorem run_look_of_ok {f : σ → Except ε α} {next : α → Steps σ ε β} {s : σ} {a : α}
    (h : f s = .ok a) : (look f >>= next).run s = (next a).run s := by
  rw [EStateM.run_bind, run_look, h]
  rfl

theorem run_look_of_error {f : σ → Except ε α} {next : α → Steps σ ε β} {s : σ} {err : ε}
    (h : f s = .error err) : (look f >>= next).run s = .error err s := by
  rw [EStateM.run_bind, run_look, h]
  rfl

/-- Steps after a check are all or nothing if the check leaves them so. -/
theorem run_look_bind {f : σ → Except ε α} {next : α → Steps σ ε β}
    {outcome : α → Except ε (β × σ)} {s : σ}
    (h : ∀ a, f s = .ok a → (next a).run s = allOrNothing s (outcome a)) :
    (look f >>= next).run s = allOrNothing s (f s >>= outcome) := by
  cases hf : f s with
  | error err => exact run_look_of_error hf
  | ok a => exact (run_look_of_ok hf).trans (h a hf)

/-- Writes after the last step that may fail leave all or nothing. -/
theorem run_bind_of_ok {x : Steps σ ε α} {next : α → Steps σ ε β} (finish : α × σ → β × σ)
    {outcome : Except ε (α × σ)} {s : σ} (hx : x.run s = allOrNothing s outcome)
    (hnext : ∀ a s', (next a).run s' = .ok (finish (a, s')).1 (finish (a, s')).2) :
    (x >>= next).run s = allOrNothing s (outcome.map finish) := by
  rw [EStateM.run_bind, hx]
  cases outcome <;> simp [allOrNothing, Except.map, hnext]

/-- The state after one write for each item of a list. -/
@[simp] theorem run_forM (write : α → σ → σ) (items : List α) (s : σ) :
    (forM items fun a => (modify (write a) : Steps σ ε PUnit)).run s =
      .ok ⟨⟩ (items.foldl (fun s a => write a s) s) := by
  induction items generalizing s with
  | nil => rfl
  | cons a items ih => exact ih (write a s)

end Steps

end ComputedFields
