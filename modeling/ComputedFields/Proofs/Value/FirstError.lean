import ComputedFields.Proofs.Value.Errors

/-!
# Which of two errors wins

An operand may stand for an error from within lists of one item, as lookups give them. The error of
the left operand is the result if it lies in no list. From within lists it loses to an error on the
right that lies in none, and to a list of several values; and a joined text does not see it if it
lies more than two lists deep.
-/

namespace ComputedFields.Value

variable {op : BinaryOperator} {depth : Nat} {kind other : ErrorKind} {value single a b : Value}

/-- A value within so many lists of one item each. -/
def nested : Nat → Value → Value
  | 0, value => value
  | depth + 1, value => .list [nested depth value]

/-! ## Nested errors -/

theorem scalar_nested (depth : Nat) (value : Value) :
    (nested depth value).scalar = value.scalar := by
  induction depth with
  | zero => rfl
  | succ depth ih => rw [nested, scalar, ih]

theorem toText_nested (depth : Nat) (value : Value) :
    (nested depth value).toText = value.toText := by
  induction depth with
  | zero => rfl
  | succ depth ih => rw [nested, toText, joinTexts, ih]

/-- An error has no text where it is seen. -/
theorem asText_nested_of_le (h : depth ≤ 2) :
    (nested depth (.error kind)).asText = .error kind := by
  match depth, h with
  | 0, _ | 1, _ | 2, _ => rfl

/-- Deeper down an error is taken for the text of its code. -/
theorem asText_nested_of_lt (h : 2 < depth) :
    (nested depth (.error kind)).asText = .ok kind.code := by
  obtain ⟨depth, rfl⟩ := Nat.exists_eq_add_of_le' h
  have hfirst : firstError? [nested (depth + 2) (.error kind)] = none := rfl
  have htext := toText_nested (depth + 3) (.error kind)
  rw [nested] at htext ⊢
  rw [asText, hfirst, htext, toText]

/-- A value without errors has a text. -/
theorem asText_of_not_holdsError (h : ¬ value.HoldsError) : ∃ s, value.asText = .ok s := by
  cases value with
  | error kind => exact absurd ⟨0, rfl⟩ h
  | list items =>
    have hfirst : firstError? items = none := firstError?_eq_none.mpr fun item hitem =>
      Bool.eq_false_iff.mpr fun herror => h (holdsError_list.mpr ⟨item, hitem, 1, herror⟩)
    exact ⟨_, by rw [asText, hfirst]⟩
  | _ => exact ⟨_, rfl⟩

theorem error?_of_not_holdsError (h : ¬ value.HoldsError) : value.error? = none := by
  cases value with
  | error kind => exact absurd ⟨0, rfl⟩ h
  | _ => rfl

/-- A value without errors does not stand for one. -/
theorem error?_of_scalar (h : ¬ value.HoldsError) (hscalar : value.scalar = .ok single) :
    single.error? = none := by
  induction value using induct with
  | list items ih =>
    match items with
    | [] =>
      cases hscalar
      rfl
    | [item] =>
      have hitem : item ∈ [item] := List.mem_singleton_self item
      exact ih item hitem (fun herror => h (holdsError_list.mpr ⟨item, hitem, herror⟩)) hscalar
    | _ :: _ :: _ => cases hscalar
  | single value hsingle =>
    cases value with
    | list items => exact absurd rfl (hsingle items)
    | _ =>
      cases hscalar
      exact error?_of_not_holdsError h

/-! ## Operators -/

/-- An error in no list wins over what is in lists, also on its left. -/
theorem applyBinary_error_right (h : a.error? = none) :
    applyBinary op a (.error kind) = .error kind := by
  rw [applyBinary, h]
  rfl

/-- Joining texts fails with the error of the left one, or else with that of the right one. -/
theorem applyBinary_concat_eq_error (ha : a.error? = none) (hb : b.error? = none) :
    applyBinary .concat a b = .error kind ↔
      a.asText = .error kind ∨ (∃ s, a.asText = .ok s) ∧ b.asText = .error kind := by
  rw [applyBinary, ha, hb]
  show ofResult (concat a b) = .error kind ↔ _
  rw [concat]
  cases a.asText with
  | error other => simp [ofResult, bind, Except.bind]
  | ok s => cases b.asText <;> simp [ofResult, bind, Except.bind, pure, Except.pure]

/-- The other operators fail with the error that the left operand stands for if the right one stands
for a single value. -/
theorem applyBinary_of_scalar_error (hop : op ≠ .concat) (ha : a.error? = none)
    (hb : b.error? = none) (hscalar : a.scalar = .ok (.error kind)) :
    applyBinary op a b = match b.scalar with
      | .error other => .error other
      | .ok _ => .error kind := by
  rw [applyBinary, ha, hb, hscalar]
  show (if op = .concat then _ else _) = _
  rw [if_neg hop]
  cases b.scalar <;> rfl

/-- They fail with the error that the right operand stands for if the left one stands for a single
value that is none. -/
theorem applyBinary_of_error_scalar (hop : op ≠ .concat) (ha : a.error? = none)
    (hb : b.error? = none) (hleft : a.scalar = .ok single) (hsingle : single.error? = none)
    (hright : b.scalar = .ok (.error kind)) : applyBinary op a b = .error kind := by
  rw [applyBinary, ha, hb, hleft, hright]
  show (if op = .concat then _ else _) = _
  rw [if_neg hop]
  dsimp only
  rw [hsingle]
  rfl

/-- The error of a left operand that lies in lists is the result, unless the right operand is
another error, or texts are joined and it lies too deep, or texts are not joined and the right
operand stands for no single value. -/
theorem applyBinary_nested_left :
    applyBinary op (nested (depth + 1) (.error kind)) b = .error kind ↔
      (∀ other, b.error? = some other → other = kind) ∧
        (op = .concat → depth + 1 ≤ 2 ∨ b.asText = .error kind) ∧
        (op ≠ .concat → ∀ other, b.scalar = .error other → other = kind) := by
  cases hb : b.error? with
  | some other =>
    obtain rfl : b = .error other := by
      cases b with
      | error => exact congrArg Value.error (Option.some.inj hb)
      | _ => cases hb
    have hresult : applyBinary op (nested (depth + 1) (.error kind)) (.error other) =
      .error other := applyBinary_error_right rfl
    rw [hresult, Value.error.injEq]
    constructor
    · rintro rfl
      exact ⟨fun _ h => (Option.some.inj h).symm, fun _ => .inr rfl, fun _ _ h => by cases h⟩
    · rintro ⟨hsame, -⟩
      exact hsame other rfl
  | none =>
    by_cases hop : op = .concat
    · subst hop
      rw [applyBinary_concat_eq_error rfl hb]
      by_cases hdepth : depth + 1 ≤ 2
      · simp [asText_nested_of_le hdepth, hdepth]
      · simp [asText_nested_of_lt (Nat.lt_of_not_le hdepth), hdepth]
    · have hscalar : (nested (depth + 1) (.error kind)).scalar = .ok (.error kind) :=
        scalar_nested _ _
      rw [applyBinary_of_scalar_error hop rfl hb hscalar]
      cases b.scalar <;> simp [hop]

/-- The error of a right operand is the result if there is none on the left, which stands for a
single value, unless texts are joined and it lies too deep. -/
theorem applyBinary_nested_right (ha : ¬ a.HoldsError) (hleft : a.scalar = .ok single) :
    applyBinary op a (nested depth (.error kind)) = .error kind ↔
      (op = .concat → depth ≤ 2) := by
  have herror := error?_of_not_holdsError ha
  cases depth with
  | zero => exact iff_of_true (applyBinary_error_right herror) fun _ => Nat.zero_le _
  | succ depth =>
    by_cases hop : op = .concat
    · subst hop
      obtain ⟨s, hs⟩ := asText_of_not_holdsError ha
      rw [applyBinary_concat_eq_error herror rfl, hs]
      by_cases hdepth : depth + 1 ≤ 2
      · simp [asText_nested_of_le hdepth, hdepth]
      · simp [asText_nested_of_lt (Nat.lt_of_not_le hdepth), hdepth]
    · exact iff_of_true (applyBinary_of_error_scalar hop herror rfl hleft
        (error?_of_scalar ha hleft) (scalar_nested _ _)) fun h => absurd h hop

/-- The error that an operand stands for is the result, the left one first, with these exceptions:
one that lies in lists, on the left, loses to another error in no list and, but for joined texts, to
a list of several values; and a joined text takes one that lies more than two lists deep for the
text of its code. -/
theorem first_error_wins (op : BinaryOperator) (depth : Nat) (kind : ErrorKind) (a b : Value) :
    (applyBinary op (nested depth (.error kind)) b = .error kind ↔
      depth = 0 ∨ (∀ other, b.error? = some other → other = kind) ∧
        (op = .concat → depth ≤ 2 ∨ b.asText = .error kind) ∧
        (op ≠ .concat → ∀ other, b.scalar = .error other → other = kind)) ∧
    (¬ a.HoldsError → (∃ single, a.scalar = .ok single) →
      (applyBinary op a (nested depth (.error kind)) = .error kind ↔
        (op = .concat → depth ≤ 2))) := by
  refine ⟨?_, fun ha ⟨single, hleft⟩ => applyBinary_nested_right ha hleft⟩
  cases depth with
  | zero => exact iff_of_true rfl (.inl rfl)
  | succ depth =>
    rw [applyBinary_nested_left]
    simp

/-- An error that a lookup gives on the left loses to one on the right, and to a list of two
values. -/
theorem lookedUp_error_loses :
    applyBinary .add (nested 1 (.error .nullOperand)) (.error .divisionByZero) ≠
        .error .nullOperand ∧
      applyBinary .add (nested 1 (.error .nullOperand)) (.list [.null, .null]) ≠
        .error .nullOperand ∧
      applyBinary .add (.text "1") (nested 1 (.error .nullOperand)) = .error .nullOperand := by
  have hnone : ¬ (Value.text "1").HoldsError := by
    rw [holdsError_single (by simp)]
    decide
  refine ⟨fun h => ?_, fun h => ?_, ?_⟩
  · obtain hzero | ⟨hother, -⟩ :=
      (first_error_wins .add 1 .nullOperand .null (.error .divisionByZero)).1.mp h
    · cases hzero
    · cases hother _ rfl
  · obtain hzero | ⟨-, -, hlist⟩ :=
      (first_error_wins .add 1 .nullOperand .null (.list [.null, .null])).1.mp h
    · cases hzero
    · cases hlist (by decide) _ rfl
  · exact ((first_error_wins .add 1 .nullOperand (.text "1") .null).2 hnone ⟨_, rfl⟩).mpr nofun

end ComputedFields.Value
