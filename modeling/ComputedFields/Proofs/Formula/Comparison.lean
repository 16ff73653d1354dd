import ComputedFields.Library.Logic
import ComputedFields.Proofs.Formula.Operands

/-!
# Comparisons describe one order

Two operands without errors are less, equal or greater, and the six comparisons agree on which; or
they are in no order, and the four that ask for one fail with the same error. Inequality is the
negation of equality, which asks for no order.
-/

namespace ComputedFields

/-- What a comparison other than equality asks of the order of its operands. -/
def BinaryOperator.asks : BinaryOperator → Option (Ordering → Bool)
  | .lessThan => some Ordering.isLT
  | .lessEqual => some Ordering.isLE
  | .greaterThan => some Ordering.isGT
  | .greaterEqual => some Ordering.isGE
  | _ => none

namespace Value

variable {op : BinaryOperator} {test : Ordering → Bool} {a b c : Value} {o : Ordering}

/-! ## The order of operands -/

/-- The order of the single values that two operands stand for. -/
def order (a b : Value) : Except ErrorKind Ordering :=
  a.scalar.bind fun x => b.scalar.bind fun y => compare x y

theorem ranked_of_order (h : order a b = .ok o) :
    ∃ x y, a.scalar = .ok x ∧ b.scalar = .ok y ∧ Ranked x y o := by
  obtain ⟨x, hx, h⟩ := ok_of_bind h
  obtain ⟨y, hy, h⟩ := ok_of_bind h
  exact ⟨x, y, hx, hy, .of_compare h⟩

theorem order_trans (hab : order a b = .ok .lt) (hbc : order b c = .ok .lt) :
    order a c = .ok .lt := by
  obtain ⟨x, y, hx, hy, hxy⟩ := ranked_of_order hab
  obtain ⟨y', z, hy', hz, hyz⟩ := ranked_of_order hbc
  obtain rfl := Except.ok.inj (hy.symm.trans hy')
  rw [order, hx, hz]
  exact (hxy.trans hyz).compare_eq

/-! ## Operators -/

theorem applyBinary_asks (ha : ¬ a.HoldsError) (hb : ¬ b.HoldsError) (h : op.asks = some test) :
    applyBinary op a b = ofResult ((order a b).map fun o => .boolean (test o)) := by
  have hscalar (x y : Value) :
      applyScalar op x y = (compare x y).map fun o => .boolean (test o) := by
    cases op <;> cases h <;> rfl
  have hop : op ≠ .concat := by
    rintro rfl
    cases h
  rw [applyBinary_eq hop ha hb, order]
  cases a.scalar with
  | error kind => rfl
  | ok x =>
    cases b.scalar with
    | error kind => rfl
    | ok y => exact congrArg ofResult (hscalar x y)

/-- Where there is an order, equality agrees with it. -/
theorem applyBinary_equal_of_order (ha : ¬ a.HoldsError) (hb : ¬ b.HoldsError)
    (h : order a b = .ok o) : applyBinary .equal a b = .boolean o.isEq := by
  obtain ⟨x, y, hx, hy, hranked⟩ := ranked_of_order h
  have hop : BinaryOperator.equal ≠ .concat := nofun
  rw [applyBinary_eq hop ha hb, hx, hy, ← hranked.equal_eq]
  rfl

/-- Inequality is the negation of equality. -/
theorem applyBinary_notEqual (ha : ¬ a.HoldsError) (hb : ¬ b.HoldsError) :
    applyBinary .notEqual a b = ofResult (Library.negation [applyBinary .equal a b]) := by
  have hop : BinaryOperator.equal ≠ .concat := nofun
  have hop' : BinaryOperator.notEqual ≠ .concat := nofun
  rw [applyBinary_eq hop ha hb, applyBinary_eq hop' ha hb]
  cases a.scalar with
  | error kind => rfl
  | ok x => cases b.scalar <;> rfl

/-- Equality is told of any two single values. -/
theorem applyBinary_equal_of_single (ha : ¬ a.HoldsError) (hb : ¬ b.HoldsError)
    (hx : ∃ x, a.scalar = .ok x) (hy : ∃ y, b.scalar = .ok y) :
    ∃ r, applyBinary .equal a b = .boolean r := by
  obtain ⟨x, hx⟩ := hx
  obtain ⟨y, hy⟩ := hy
  have hop : BinaryOperator.equal ≠ .concat := nofun
  exact ⟨equal x y, by rw [applyBinary_eq hop ha hb, hx, hy]; rfl⟩

/-- One operand is less than another where the order says so. -/
theorem lessThan_iff (ha : ¬ a.HoldsError) (hb : ¬ b.HoldsError) :
    applyBinary .lessThan a b = .boolean true ↔ order a b = .ok .lt := by
  rw [applyBinary_asks ha hb rfl]
  cases order a b with
  | error kind => exact ⟨nofun, nofun⟩
  | ok o => cases o <;> simp [ofResult, Except.map]

/-! ## One order -/

/-- The six comparisons say that two operands are in this order. -/
structure Compared (a b : Value) (o : Ordering) : Prop where
  lessThan : applyBinary .lessThan a b = .boolean o.isLT
  equal : applyBinary .equal a b = .boolean o.isEq
  greaterThan : applyBinary .greaterThan a b = .boolean o.isGT
  lessEqual : applyBinary .lessEqual a b = .boolean !o.isGT
  greaterEqual : applyBinary .greaterEqual a b = .boolean !o.isLT

/-- The comparisons that ask for an order fail with this error. -/
structure Incomparable (a b : Value) (kind : ErrorKind) : Prop where
  lessThan : applyBinary .lessThan a b = .error kind
  greaterThan : applyBinary .greaterThan a b = .error kind
  lessEqual : applyBinary .lessEqual a b = .error kind
  greaterEqual : applyBinary .greaterEqual a b = .error kind

theorem compared_or_incomparable (ha : ¬ a.HoldsError) (hb : ¬ b.HoldsError) :
    (∃ o, Compared a b o) ∨ ∃ kind, Incomparable a b kind := by
  have hasks {op : BinaryOperator} {test : Ordering → Bool} (h : op.asks = some test) :=
    applyBinary_asks ha hb h
  cases h : order a b with
  | ok o =>
    simp only [h, Except.map, ofResult] at hasks
    refine .inl ⟨o, hasks rfl, applyBinary_equal_of_order ha hb h, hasks rfl, ?_, ?_⟩
    · rw [hasks rfl]
      cases o <;> rfl
    · rw [hasks rfl]
      cases o <;> rfl
  | error kind =>
    simp only [h, Except.map, ofResult] at hasks
    exact .inr ⟨kind, hasks rfl, hasks rfl, hasks rfl, hasks rfl⟩

/-- The six comparisons describe one order. -/
theorem comparisons_describe_one_order (ha : ¬ a.HoldsError) (hb : ¬ b.HoldsError)
    (hc : ¬ c.HoldsError) :
    applyBinary .notEqual a b = ofResult (Library.negation [applyBinary .equal a b]) ∧
      ((∃ x, a.scalar = .ok x) → (∃ y, b.scalar = .ok y) →
        ∃ r, applyBinary .equal a b = .boolean r) ∧
      ((∃ o, Compared a b o) ∨ ∃ kind, Incomparable a b kind) ∧
      (applyBinary .lessThan a b = .boolean true → applyBinary .lessThan b c = .boolean true →
        applyBinary .lessThan a c = .boolean true) := by
  refine ⟨applyBinary_notEqual ha hb, applyBinary_equal_of_single ha hb,
    compared_or_incomparable ha hb, fun hab hbc => ?_⟩
  rw [lessThan_iff ha hb] at hab
  rw [lessThan_iff hb hc] at hbc
  exact (lessThan_iff ha hc).mpr (order_trans hab hbc)

/-- Texts that read as numbers are in the order of texts, and a lookup counts as its one item. -/
theorem comparisons_describe_one_order_texts :
    ¬ (Value.text "10").HoldsError ∧ ¬ (Value.text "9").HoldsError ∧
      ¬ (Value.list [.text "a"]).HoldsError ∧
      applyBinary .notEqual (.text "10") (.text "9") = .boolean true ∧
      applyBinary .lessThan (.text "10") (.list [.text "a"]) = .boolean true := by
  have hten : ¬ (Value.text "10").HoldsError := Single.not_holdsError ⟨nofun, rfl⟩
  have hnine : ¬ (Value.text "9").HoldsError := Single.not_holdsError ⟨nofun, rfl⟩
  have hlookup : ¬ (Value.list [.text "a"]).HoldsError :=
    Single.list_not_holdsError ⟨nofun, rfl⟩
  obtain ⟨hnot, -, -, hless⟩ := comparisons_describe_one_order hten hnine hlookup
  have hequal : applyBinary .equal (.text "10") (.text "9") = .boolean false := by decide
  exact ⟨hten, hnine, hlookup, by rw [hnot, hequal]; rfl, hless (by decide) (by decide)⟩

end Value

end ComputedFields
