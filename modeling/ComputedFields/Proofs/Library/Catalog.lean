import ComputedFields.Library.Catalog

/-!
# The catalog of functions

What holds of every function that formulas may call.
-/

namespace ComputedFields.Library

variable {f : Function} {name : String} {now now' : Calendar.DateTime} {args : List Value}

theorem mem_of_find? (h : find? name = some f) : f ∈ functions :=
  List.mem_of_find?_eq_some h

/-- A function that is not marked as reading the clock computes the same at all times. -/
theorem run_eq_of_not_volatile (hf : f ∈ functions) (h : f.volatile = false) :
    f.run now = f.run now' := by
  have hall : ∀ f ∈ functions, f.volatile = false → f.run now = f.run now' := by
    simp [functions]
  exact hall f hf h

/-- So does a call that is not marked. -/
theorem apply_eq_of_not_isVolatile (hf : find? name = some f) (h : isVolatile name = false) :
    f.apply now args = f.apply now' args := by
  rw [isVolatile, hf, Option.any_some] at h
  rw [Function.apply, Function.apply, run_eq_of_not_volatile (mem_of_find? hf) h]

/-- A call that is accepted has as many arguments as the function takes. -/
theorem length_of_accepts {least greatest : Nat} (hmin : f.minArgs = least)
    (hmax : f.maxArgs = some greatest) (h : f.accepts args.length = true) :
    least ≤ args.length ∧ args.length ≤ greatest := by
  simpa only [Function.accepts, hmin, hmax, Option.all_some, Bool.and_eq_true,
    decide_eq_true_eq] using h

theorem exists_single (hmin : f.minArgs = 1) (hmax : f.maxArgs = some 1)
    (h : f.accepts args.length = true) : ∃ a, args = [a] := by
  obtain ⟨hleast, hgreatest⟩ := length_of_accepts hmin hmax h
  exact List.length_eq_one_iff.mp (Nat.le_antisymm hgreatest hleast)

theorem exists_pair (hmin : f.minArgs = 2) (hmax : f.maxArgs = some 2)
    (h : f.accepts args.length = true) : ∃ a b, args = [a, b] := by
  obtain ⟨hleast, hgreatest⟩ := length_of_accepts hmin hmax h
  match args, Nat.le_antisymm hgreatest hleast with
  | [a, b], _ => exact ⟨a, b, rfl⟩

/-- A time to compute at. -/
def midsummer : Calendar.DateTime :=
  .ofDate ⟨2025, 6, 24, by decide, by decide, by decide, by decide, by decide, by decide⟩

end ComputedFields.Library
