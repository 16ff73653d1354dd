import ComputedFields.Proofs.Calendar.Order
import ComputedFields.Proofs.Decimal.Rational
import ComputedFields.Formula.Operator

/-!
# The order of single values

Two single values of one type are less, equal or greater, by the number, the text, the truth value,
the instant or the span that they are. Values of two types, and nulls, are in no order. Where there
is an order, equality agrees with it.
-/

namespace ComputedFields

open Std

/-! ## Numbers and texts -/

instance : TransCmp Decimal.compare := transCmp_of_key Decimal.toRat Decimal.compare_eq

theorem Decimal.compare_eq_eq {a b : Decimal} : a.compare b = .eq ↔ a.sameNumber b = true := by
  rw [compare, Int.compare_eq_eq, sameNumber_iff]

namespace Text

variable {a b : String}

theorem compareChars_eq (as bs : List Char) :
    compareChars as bs = Ord.compare (as.map Char.toNat) (bs.map Char.toNat) := by
  induction as generalizing bs with
  | nil => cases bs <;> rfl
  | cons a as ih =>
    cases bs with
    | nil => rfl
    | cons b bs => rw [compareChars, ih, List.map_cons, List.map_cons, List.compare_cons_cons]

/-- The code points of a text. -/
def codes (s : String) : List Nat := s.toList.map Char.toNat

theorem compare_eq (a b : String) : compare a b = Ord.compare (codes a) (codes b) :=
  compareChars_eq _ _

instance : TransCmp Text.compare := transCmp_of_key codes compare_eq

theorem compare_eq_eq : compare a b = .eq ↔ a = b := by
  rw [compare_eq, LawfulEqCmp.compare_eq_iff_eq, codes, codes,
    List.map_inj_right fun _ _ => Char.toNat_inj.mp, String.toList_inj]

end Text

namespace Value

variable {a b c : Value} {o : Ordering}

/-! ## Values -/

/-- Two single values of one type and their order. -/
inductive Ranked : Value → Value → Ordering → Prop where
  | number {m n : Decimal} {o : Ordering} (h : m.compare n = o) : Ranked (.number m) (.number n) o
  | text {s t : String} {o : Ordering} (h : Text.compare s t = o) : Ranked (.text s) (.text t) o
  | boolean {p q : Bool} {o : Ordering} (h : Ord.compare p.toNat q.toNat = o) :
    Ranked (.boolean p) (.boolean q) o
  | date {d e : Calendar.DateTime} {o : Ordering} (h : d.compare e = o) : Ranked (.date d) (.date e) o
  | duration {s t : Calendar.Duration} {o : Ordering} (h : s.compare t = o) :
    Ranked (.duration s) (.duration t) o

theorem Ranked.of_compare (h : compare a b = .ok o) : Ranked a b o := by
  rw [compare.eq_def] at h
  split at h
  · cases h
  · cases h
  · exact .number (Except.ok.inj h)
  · exact .text (Except.ok.inj h)
  · exact .boolean (Except.ok.inj h)
  · exact .date (Except.ok.inj h)
  · exact .duration (Except.ok.inj h)
  · cases h

theorem Ranked.compare_eq (h : Ranked a b o) : compare a b = .ok o := by
  cases h with
  | number h | text h | boolean h | date h | duration h => exact congrArg Except.ok h

/-- What is less than something less is less. -/
theorem Ranked.trans (hab : Ranked a b .lt) (hbc : Ranked b c .lt) : Ranked a c .lt := by
  cases hab with
  | number h => cases hbc with | number h' => exact .number (TransCmp.lt_trans h h')
  | text h => cases hbc with | text h' => exact .text (TransCmp.lt_trans h h')
  | boolean h =>
    cases hbc with
    | boolean h' => exact .boolean (TransCmp.lt_trans h h')
  | date h => cases hbc with | date h' => exact .date (TransCmp.lt_trans h h')
  | duration h => cases hbc with | duration h' => exact .duration (TransCmp.lt_trans h h')

/-- Equality agrees with the order. -/
theorem Ranked.equal_eq (h : Ranked a b o) : equal a b = o.isEq := by
  have hiff {x : Bool} {o o' : Ordering} (ho : o = o') (h : o = .eq ↔ x = true) : x = o'.isEq := by
    rw [Bool.eq_iff_iff, ← h, ho, Ordering.isEq_iff_eq_eq]
  cases h with
  | number h => exact hiff h Decimal.compare_eq_eq
  | text h => exact hiff h (Text.compare_eq_eq.trans beq_iff_eq.symm)
  | @boolean p q o h => exact hiff h (by cases p <;> cases q <;> decide)
  | date h => exact hiff h (Calendar.DateTime.compare_eq_eq.trans beq_iff_eq.symm)
  | duration h => exact hiff h (Calendar.Duration.compare_eq_eq.trans beq_iff_eq.symm)

/-! ## Either order -/

/-- Seen from the other value the order is the other way round, or fails in the same way. -/
theorem compare_swap (a b : Value) : compare b a = (compare a b).map Ordering.swap := by
  cases a <;> cases b <;> first | rfl | exact congrArg Except.ok OrientedCmp.eq_swap

theorem equal_comm (a b : Value) : equal a b = equal b a := by
  cases a <;> cases b <;> try rfl
  case number.number m n =>
    rw [equal, equal, Bool.eq_iff_iff]
    exact ⟨Decimal.sameNumber_symm, Decimal.sameNumber_symm⟩
  all_goals exact BEq.comm

end Value

end ComputedFields
