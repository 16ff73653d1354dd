import ComputedFields.Proofs.Formula.OneItem
import ComputedFields.Proofs.Value.FirstError
import ComputedFields.Proofs.Value.Order

/-!
# Operands in either order

An operand without errors stands for a single value, or for none, which is a wrong type whatever the
other one is. So a law on single values is one on all operands: sums, products and equality do not
depend on the order of the operands, and the comparisons turn round with it.
-/

namespace ComputedFields

/-! ## Sums and products of numbers -/

namespace Decimal

/-- Of two zeros the sum is the second one, as it is written. -/
theorem add?_swap (a b : Decimal) : SameResult (a.add? b) (b.add? a) := by
  cases ha : a.isZero with
  | true =>
    cases hb : b.isZero with
    | true =>
      rw [add?, add?, ha, hb]
      exact .some (toRat_eq_iff.mp ((toRat_eq_zero.mpr hb).trans (toRat_eq_zero.mpr ha).symm))
    | false =>
      rw [add?, add?, ha, hb]
      exact .refl _
  | false =>
    have hscale : max a.scale b.scale = max b.scale a.scale := Nat.max_comm _ _
    cases hb : b.isZero with
    | true =>
      rw [add?, add?, ha, hb]
      exact .refl _
    | false =>
      simp only [add?, ha, hb, hscale, Bool.false_eq_true, if_false,
        Int.add_comm (a.alignedMantissa _)]
      exact .refl _

theorem mul?_comm (a b : Decimal) : a.mul? b = b.mul? a := by
  have hvanish : a.vanish b = b.vanish a := by
    rw [vanish, vanish, Bool.and_comm (decide (a.mantissa < wordBound)), Nat.add_comm]
  rw [mul?, mul?, hvanish, Bool.or_comm a.isZero, Nat.mul_comm, Nat.add_comm, bne_comm]

end Decimal

namespace Value

variable {op op' : BinaryOperator} {value a b : Value}

/-! ## Single operands -/

/-- A value without errors stands for a single value or is a list of several. -/
theorem scalar_cases (h : ¬ value.HoldsError) :
    (∃ single : Value, single.Single ∧ value.scalar = .ok single) ∨
      value.scalar = .error .typeMismatch := by
  induction value using induct with
  | list items ih =>
    match items with
    | [] => exact .inl ⟨.null, ⟨nofun, rfl⟩, rfl⟩
    | [item] =>
      have hitem : item ∈ [item] := List.mem_singleton_self item
      exact ih item hitem fun herror => h (holdsError_list.mpr ⟨item, hitem, herror⟩)
    | _ :: _ :: _ => exact .inr rfl
  | single value hsingle =>
    have hscalar : value.scalar = .ok value := by
      cases value with
      | list items => exact absurd rfl (hsingle items)
      | _ => rfl
    exact .inl ⟨value, ⟨hsingle, error?_of_not_holdsError h⟩, hscalar⟩

theorem Single.not_holdsError (h : value.Single) : ¬ value.HoldsError := by
  have herror := h.not_error
  rw [holdsError_single h.not_list, isError, herror]
  decide

/-- Nor is there an error in a lookup of one record. -/
theorem Single.list_not_holdsError (h : value.Single) : ¬ (Value.list [value]).HoldsError := by
  rw [holdsError_list]
  rintro ⟨item, hitem, herror⟩
  obtain rfl := List.mem_singleton.mp hitem
  exact h.not_holdsError herror

/-- An operator other than that for joined texts is applied to the single values that its operands
stand for. -/
theorem applyBinary_eq (hop : op ≠ .concat) (ha : ¬ a.HoldsError) (hb : ¬ b.HoldsError) :
    applyBinary op a b = ofResult (a.scalar.bind fun x => b.scalar.bind fun y =>
      applyScalar op x y) := by
  rw [applyBinary, error?_of_not_holdsError ha, error?_of_not_holdsError hb]
  show (if op = .concat then _ else _) = _
  rw [if_neg hop]
  rcases scalar_cases ha with ⟨x, hx, hscalar⟩ | hscalar <;> rw [hscalar]
  · rcases scalar_cases hb with ⟨y, hy, hscalar'⟩ | hscalar' <;> rw [hscalar']
    · simp only [hx.not_error, hy.not_error, Option.or_none]
      rfl
    · rfl
  · rfl

/-- What holds for single values in either order holds for all operands. -/
theorem applyBinary_swap {r : Value → Value → Prop} (hrefl : ∀ value, r value value)
    (hop : op ≠ .concat) (hop' : op' ≠ .concat) (ha : ¬ a.HoldsError) (hb : ¬ b.HoldsError)
    (h : ∀ x y : Value, x.Single → y.Single →
      r (ofResult (applyScalar op x y)) (ofResult (applyScalar op' y x))) :
    r (applyBinary op a b) (applyBinary op' b a) := by
  rw [applyBinary_eq hop ha hb, applyBinary_eq hop' hb ha]
  rcases scalar_cases ha with ⟨x, hx, hscalar⟩ | hscalar <;>
    rcases scalar_cases hb with ⟨y, hy, hscalar'⟩ | hscalar' <;> rw [hscalar, hscalar']
  · exact h x y hx hy
  · exact hrefl _
  · exact hrefl _
  · exact hrefl _

/-! ## Operators on single values -/

/-- A single value that is not null is a number or of the wrong type. -/
theorem Single.toNumber_cases (h : value.Single) (hnull : value.isNull = false) :
    (∃ n, value.toNumber = .ok n) ∨ value.toNumber = .error .typeMismatch := by
  cases value with
  | null => cases hnull
  | error kind => cases h.not_error
  | list items => exact absurd rfl (h.not_list items)
  | text s =>
    show (∃ n, scalarNumber (.text s) = .ok n) ∨ scalarNumber (.text s) = .error .typeMismatch
    rw [scalarNumber]
    cases parseNumber? s with
    | none => exact .inr rfl
    | some n => exact .inl ⟨n, rfl⟩
  | boolean b => exact .inl ⟨_, rfl⟩
  | number n => exact .inl ⟨n, rfl⟩
  | date d | duration d => exact .inr rfl

theorem arithmetic_swap {op : Decimal → Decimal → Except ErrorKind Decimal}
    (hop : ∀ m n, AgreeNumber (op m n) (op n m)) (ha : a.Single) (hb : b.Single) :
    Agree SameValue (arithmetic op a b) (arithmetic op b a) := by
  rw [arithmetic, arithmetic, Bool.or_comm b.isNull]
  split
  · exact .error _
  · rename_i hnull
    rw [Bool.or_eq_true, not_or, Bool.not_eq_true, Bool.not_eq_true] at hnull
    rcases ha.toNumber_cases hnull.1 with ⟨m, hm⟩ | hm <;>
      rcases hb.toNumber_cases hnull.2 with ⟨n, hn⟩ | hn <;> rw [hm, hn]
    · exact (hop m n).bind fun _ _ h => .ok (sameValue_number h)
    · exact .error _
    · exact .error _
    · exact .error _

theorem add_swap (ha : a.Single) (hb : b.Single) : Agree SameValue (add a b) (add b a) := by
  have hnumbers := arithmetic_swap (fun m n => agree_orOverflow (Decimal.add?_swap m n)) ha hb
  have hspans (s t : Calendar.Duration) : s.add? t = t.add? s := by
    rw [Calendar.Duration.add?, Calendar.Duration.add?, Int.add_comm]
  cases a <;> cases b <;> try first | exact agree_refl _ | exact hnumbers
  case duration.duration s t =>
    rw [add, add, hspans]
    exact agree_refl _

theorem multiply_swap (ha : a.Single) (hb : b.Single) :
    Agree SameValue (multiply a b) (multiply b a) :=
  arithmetic_swap (fun m n => by rw [Decimal.mul?_comm]; exact agreeNumber_refl _) ha hb

theorem applyScalar_compare_swap {f g : Ordering → Bool} (hfg : ∀ o, g o.swap = f o) (a b : Value) :
    (compare b a).map (fun o => boolean (g o)) = (compare a b).map fun o => boolean (f o) := by
  rw [compare_swap]
  cases compare a b with
  | error kind => rfl
  | ok o => exact congrArg (fun x => Except.ok (boolean x)) (hfg o)

/-! ## Operators -/

/-- Sums, products and equality are the same in either order, and of two comparisons one is the
other one turned round. -/
theorem operands_swap (ha : ¬ a.HoldsError) (hb : ¬ b.HoldsError) :
    (applyBinary .add a b).same (applyBinary .add b a) = true ∧
      (applyBinary .multiply a b).same (applyBinary .multiply b a) = true ∧
      applyBinary .equal a b = applyBinary .equal b a ∧
      applyBinary .notEqual a b = applyBinary .notEqual b a ∧
      applyBinary .lessThan a b = applyBinary .greaterThan b a ∧
      applyBinary .lessEqual a b = applyBinary .greaterEqual b a := by
  refine ⟨sameValue_iff.mpr ?_, sameValue_iff.mpr ?_, ?_, ?_, ?_, ?_⟩
  · exact applyBinary_swap SameValue.refl (by decide) (by decide) ha hb fun x y hx hy =>
      sameValue_ofResult (add_swap hx hy)
  · exact applyBinary_swap SameValue.refl (by decide) (by decide) ha hb fun x y hx hy =>
      sameValue_ofResult (multiply_swap hx hy)
  · exact applyBinary_swap (fun _ => rfl) (by decide) (by decide) ha hb fun x y _ _ => by
      rw [applyScalar, applyScalar, equal_comm]
  · exact applyBinary_swap (fun _ => rfl) (by decide) (by decide) ha hb fun x y _ _ => by
      rw [applyScalar, applyScalar, equal_comm]
  · exact applyBinary_swap (fun _ => rfl) (by decide) (by decide) ha hb fun x y _ _ =>
      congrArg ofResult (applyScalar_compare_swap (fun o => by cases o <;> rfl) x y).symm
  · exact applyBinary_swap (fun _ => rfl) (by decide) (by decide) ha hb fun x y _ _ =>
      congrArg ofResult (applyScalar_compare_swap (fun o => by cases o <;> rfl) x y).symm

/-- A lookup that gives one number. -/
def lookedUpOne : Value := .list [.number .one]

/-- A text that reads as a number, and a number behind a link. -/
theorem operands_swap_lookedUpOne :
    ¬ (Value.text "2").HoldsError ∧ ¬ lookedUpOne.HoldsError ∧
      (applyBinary .add (.text "2") lookedUpOne).same
        (applyBinary .add lookedUpOne (.text "2")) = true ∧
      applyBinary .lessThan (.text "2") lookedUpOne =
        applyBinary .greaterThan lookedUpOne (.text "2") := by
  have htext : ¬ (Value.text "2").HoldsError := Single.not_holdsError ⟨nofun, rfl⟩
  have hnumber : ¬ lookedUpOne.HoldsError := Single.list_not_holdsError ⟨nofun, rfl⟩
  obtain ⟨hsum, -, -, -, hless, -⟩ := operands_swap htext hnumber
  exact ⟨htext, hnumber, hsum, hless⟩

end Value

end ComputedFields
