import ComputedFields.Proofs.Decimal.Normal
import ComputedFields.Value.Basic

/-!
# The shortest form of a value

Values are lists of values or single ones. The shortest form of a list is that of its items, and a
shortest form is its own.
-/

namespace ComputedFields.Value

variable {value : Value}

/-- Induction over a value: a list, or a value that is no list. -/
@[elab_as_elim]
theorem induct {motive : Value → Prop}
    (list : ∀ items, (∀ item ∈ items, motive item) → motive (.list items))
    (single : ∀ value, (∀ items, value ≠ .list items) → motive value) : ∀ value, motive value :=
  @Value.rec motive (fun items => ∀ item ∈ items, motive item)
    (single _ (by simp)) (fun _ => single _ (by simp)) (fun _ => single _ (by simp))
    (fun _ => single _ (by simp)) (fun _ => single _ (by simp)) (fun _ => single _ (by simp))
    list (fun _ => single _ (by simp)) (by intro item h; cases h)
    (fun _ _ hitem hitems => List.forall_mem_cons.mpr ⟨hitem, hitems⟩)

theorem normalize_list (items : List Value) :
    (Value.list items).normalize = .list (items.map normalize) := by
  rw [normalize, normalizeAll_eq_map]

theorem normalize_single (h : ∀ items, value ≠ .list items) (items : List Value) :
    value.normalize ≠ .list items := by
  cases value with
  | list items => exact absurd rfl (h items)
  | _ => nofun

theorem normalize_normalize (value : Value) : value.normalize.normalize = value.normalize := by
  induction value using induct with
  | list items ih =>
    rw [normalize_list, normalize_list, List.map_map]
    exact congrArg Value.list (List.map_congr_left ih)
  | single value hsingle =>
    cases value with
    | number n => exact congrArg Value.number n.normalize_normalize
    | list items => exact absurd rfl (hsingle items)
    | _ => rfl

end ComputedFields.Value
