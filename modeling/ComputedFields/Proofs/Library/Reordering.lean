import ComputedFields.Proofs.Library.Totals
import ComputedFields.Proofs.Value.Scale

/-!
# Aggregates of linked records in any order

Counts and extremes are those of the numbers that are gathered, in whatever order. A total is too
as long as its partial sums fit; beyond that the order of the additions decides what is rounded, and
whether there is a total at all.
-/

namespace ComputedFields

open Value (SameValue flatten orOverflow)

variable {args mid args' : List Value} {item : Value}

theorem mapM_eq_ok_iff {ε α β : Type} {f : α → Except ε β} {xs : List α} {ys : List β} :
    xs.mapM f = .ok ys ↔ List.Forall₂ (fun x y => f x = .ok y) xs ys := by
  induction xs generalizing ys with
  | nil =>
    rw [List.forall₂_nil_left_iff]
    exact ⟨fun h => (Except.ok.inj h).symm, fun h => congrArg Except.ok h.symm⟩
  | cons x xs ih =>
    rw [List.mapM_cons, List.forall₂_cons_left_iff]
    constructor
    · intro h
      obtain ⟨y, hy, h⟩ := ok_of_bind h
      obtain ⟨zs, hzs, h⟩ := ok_of_bind h
      exact ⟨y, zs, hy, ih.mp hzs, (Except.ok.inj h).symm⟩
    · rintro ⟨y, zs, hy, hzs, rfl⟩
      rw [bind_of_ok hy, bind_of_ok (ih.mpr hzs)]
      rfl

/-- Steps in another order give their results in that order. -/
theorem mapM_perm {ε α β : Type} {f : α → Except ε β} {xs xs' : List α} {ys : List β}
    (hperm : xs.Perm xs') (h : xs.mapM f = .ok ys) :
    ∃ ys', xs'.mapM f = .ok ys' ∧ ys.Perm ys' := by
  obtain ⟨ys', hys', hperm'⟩ := List.perm_comp_forall₂ hperm.symm (mapM_eq_ok_iff.mp h)
  exact ⟨ys', mapM_eq_ok_iff.mpr hys', hperm'.symm⟩

theorem exists_mapM_eq_ok {ε α β : Type} {f : α → Except ε β} {xs : List α}
    (h : ∀ x ∈ xs, ∃ y, f x = .ok y) : ∃ ys, xs.mapM f = .ok ys := by
  induction xs with
  | nil => exact ⟨[], rfl⟩
  | cons x xs ih =>
    obtain ⟨⟨y, hy⟩, hxs⟩ := List.forall_mem_cons.mp h
    obtain ⟨ys, hys⟩ := ih hxs
    exact ⟨y :: ys, by rw [List.mapM_cons, bind_of_ok hy, bind_of_ok hys]; rfl⟩

namespace Value

/-! ## Arguments in another order -/

/-- The same argument, or a lookup list with the same items in some order. -/
inductive Reordered : Value → Value → Prop where
  | same (value : Value) : Reordered value value
  | items {items items' : List Value} (h : items.Perm items') :
    Reordered (.list items) (.list items')

theorem Reordered.flatten {value value' : Value} (h : Reordered value value') :
    (flatten [value]).Perm (flatten [value']) := by
  cases h with
  | same value => exact .refl _
  | items h => simpa [Value.flatten] using h

theorem flatten_perm_of_reordered (h : List.Forall₂ Reordered args mid) :
    (Value.flatten args).Perm (Value.flatten mid) := by
  induction h with
  | nil => exact .refl _
  | @cons value value' values values' hvalue hvalues ih =>
    rw [flatten_cons value values, flatten_cons value' values']
    exact hvalue.flatten.append ih

theorem flatten_perm (hitems : List.Forall₂ Reordered args mid) (horder : mid.Perm args') :
    (Value.flatten args).Perm (Value.flatten args') :=
  (flatten_perm_of_reordered hitems).trans (horder.flatMap_right _)

/-! ## Numbers that are gathered -/

/-- A blank, or a value that stands for a number, as a number, a Boolean and a text that reads as a
number do. -/
def IsSummand (item : Value) : Prop := item.isBlank = true ∨ ∃ n, item.toNumber = .ok n

theorem isSummand_of_isBlank (h : item.isBlank = true) : item.IsSummand := .inl h

theorem isSummand_number (n : Decimal) : (Value.number n).IsSummand := .inr ⟨n, rfl⟩

theorem isSummand_boolean (b : Bool) : (Value.boolean b).IsSummand := .inr ⟨_, rfl⟩

theorem isSummand_text {s : String} {n : Decimal} (h : parseNumber? s = some n) :
    (Value.text s).IsSummand := by
  have hnumber : (Value.text s).toNumber = .ok n := by
    show scalarNumber (.text s) = .ok n
    rw [scalarNumber, h]
  exact .inr ⟨n, hnumber⟩

end Value

namespace Library

variable {ns ns' : List Decimal} {a s s' : Decimal} {kind : ErrorKind}

theorem exists_numbers (h : ∀ item ∈ flatten args, item.IsSummand) :
    ∃ ns, numbers args = .ok ns := by
  refine exists_mapM_eq_ok fun item hitem => ?_
  obtain ⟨hmem, hblank⟩ := List.mem_filter.mp hitem
  refine (h item hmem).resolve_left fun h => ?_
  rw [h] at hblank
  cases hblank

/-- The numbers in some order are those of the arguments in some order. -/
theorem numbers_perm (hperm : (flatten args).Perm (flatten args')) (h : numbers args = .ok ns) :
    ∃ ns', numbers args' = .ok ns' ∧ ns.Perm ns' :=
  mapM_perm (hperm.filter _) h

/-! ## Counts and extremes -/

theorem count_perm (hperm : (flatten args).Perm (flatten args')) : count args = count args' := by
  rw [count, count, hperm.countP_eq]

/-- What is least by a key on numbers is the same number in any order. -/
theorem sameValue_pick_perm {pick : List Decimal → Option Decimal} (key : ℚ → ℚ)
    (hkey : Function.Injective key)
    (hcons : ∀ n ns, ∃ m, pick (n :: ns) = some m ∧ m ∈ n :: ns ∧
      ∀ m' ∈ n :: ns, key m.toRat ≤ key m'.toRat) (hperm : ns.Perm ns') :
    SameValue (numberOrNull (pick ns)) (numberOrNull (pick ns')) := by
  cases ns with
  | nil =>
    rw [hperm.nil_eq]
    exact .refl _
  | cons n ns =>
    cases ns' with
    | nil => exact absurd hperm.eq_nil (List.cons_ne_nil _ _)
    | cons n' ns' =>
      obtain ⟨m, hm, hmem, hleast⟩ := hcons n ns
      obtain ⟨m', hm', hmem', hleast'⟩ := hcons n' ns'
      rw [hm, hm']
      refine Value.sameValue_number (Decimal.toRat_eq_iff.mp (hkey (le_antisymm ?_ ?_)))
      · exact hleast m' (hperm.mem_iff.mpr hmem')
      · exact hleast' m (hperm.mem_iff.mp hmem)

theorem sameValue_least?_perm (hperm : ns.Perm ns') :
    SameValue (numberOrNull (least? ns)) (numberOrNull (least? ns')) :=
  sameValue_pick_perm id Function.injective_id least?_cons hperm

theorem sameValue_greatest?_perm (hperm : ns.Perm ns') :
    SameValue (numberOrNull (greatest? ns)) (numberOrNull (greatest? ns')) := by
  refine sameValue_pick_perm Neg.neg neg_injective (fun n ns => ?_) hperm
  obtain ⟨hi, hhi, hmem, hgreatest⟩ := greatest?_cons n ns
  exact ⟨hi, hhi, hmem, fun m hm => neg_le_neg (hgreatest m hm)⟩

/-! ## Totals -/

theorem sum_eq (h : numbers args = .ok ns) : sum args = (total ns).map .number := by
  rw [sum, h]
  rfl

theorem sum_exact (h : numbers args = .ok ns) (hfit : SumsFit ns) :
    ∃ s, sum args = .ok (.number s) ∧ s.toRat = exactSum ns := by
  obtain ⟨s, hs, hvalue⟩ := total_exact hfit
  exact ⟨s, by rw [sum_eq h, hs]; rfl, hvalue⟩

theorem total_of_sum (h : numbers args = .ok ns) (hsum : sum args = .ok (.number s)) :
    total ns = .ok s := by
  rw [sum_eq h] at hsum
  obtain ⟨s', hs', hs⟩ := ok_of_map hsum
  cases hs
  exact hs'

theorem kind_of_sum (h : numbers args = .ok ns) (hsum : sum args = .error kind) :
    kind = .numericOverflow := by
  rw [sum_eq h] at hsum
  cases htotal : total ns with
  | ok s =>
    rw [htotal] at hsum
    cases hsum
  | error kind' =>
    rw [htotal] at hsum
    cases hsum
    exact kind_of_foldlM htotal

/-- Counts, the least and the greatest number do not depend on the order of arguments and of linked
records, which is what `Value.flatten_perm` is about, nor on which list an item stands in, if any. A
sum does not as long as the partial sums fit on both sides, as they do wherever the magnitudes fit
together; two sums differ by no more than their additions lose, and a sum fails only for overflow.
-/
theorem aggregates_reordered (hsummands : ∀ item ∈ flatten args, item.IsSummand)
    (hperm : (flatten args).Perm (flatten args')) :
    Agree SameValue (count args) (count args') ∧
      Agree SameValue (minimum args) (minimum args') ∧
      Agree SameValue (maximum args) (maximum args') ∧
      ∃ ns ns', numbers args = .ok ns ∧ numbers args' = .ok ns' ∧
        (SumsFit ns → SumsFit ns' → ∃ s s', sum args = .ok (.number s) ∧
          sum args' = .ok (.number s') ∧ s.sameNumber s' = true) ∧
        (∀ k ≤ Decimal.maxScale, (∀ n ∈ ns, n.scale ≤ k) →
          magnitude ns * tenPow k < Decimal.capacity → SumsFit ns ∧ SumsFit ns') ∧
        (∀ s s', sum args = .ok (.number s) → sum args' = .ok (.number s') →
          |s.toRat - s'.toRat| ≤ 2 * drift (ns.length - 1) * magnitude ns) ∧
        (∀ kind, sum args = .error kind → kind = .numericOverflow) ∧
        ∀ kind, sum args' = .error kind → kind = .numericOverflow := by
  obtain ⟨ns, hns⟩ := exists_numbers hsummands
  obtain ⟨ns', hns', hsame⟩ := numbers_perm hperm hns
  refine ⟨?_, ?_, ?_, ns, ns', hns, hns', fun hfit hfit' => ?_, fun k hk hscale hsmall => ?_,
    fun s s' hs hs' => ?_, fun _ => kind_of_sum hns, fun _ => kind_of_sum hns'⟩
  · rw [count_perm hperm]
    exact Value.agree_refl _
  · rw [minimum, minimum, hns, hns']
    exact .ok (sameValue_least?_perm hsame)
  · rw [maximum, maximum, hns, hns']
    exact .ok (sameValue_greatest?_perm hsame)
  · obtain ⟨s, hs, hvalue⟩ := sum_exact hns hfit
    obtain ⟨s', hs', hvalue'⟩ := sum_exact hns' hfit'
    refine ⟨s, s', hs, hs', Decimal.toRat_eq_iff.mp ?_⟩
    rw [hvalue, hvalue', exactSum_perm hsame]
  · refine ⟨sumsFit_of_magnitude_lt hscale hk hsmall, sumsFit_of_magnitude_lt ?_ hk ?_⟩
    · exact fun n hn => hscale n (hsame.mem_iff.mpr hn)
    · rwa [← magnitude_perm hsame]
  · have herror := total_error (total_of_sum hns hs)
    have herror' := total_error (total_of_sum hns' hs')
    rw [← exactSum_perm hsame, ← magnitude_perm hsame, ← hsame.length_eq] at herror'
    calc |s.toRat - s'.toRat| ≤ |s.toRat - exactSum ns| + |exactSum ns - s'.toRat| :=
          abs_sub_le _ _ _
      _ ≤ 2 * drift (ns.length - 1) * magnitude ns := by
        rw [abs_sub_comm (exactSum ns)]
        linarith

/-- A lookup list with a number, a text and a blank, and a Boolean. -/
def linkedAmounts : List Value :=
  [.list [.number ten, .text "2.5", .null], .boolean true]

/-- They in another order. -/
def linkedAmountsReordered : List Value :=
  [.boolean true, .list [.null, .number ten, .text "2.5"]]

/-- They with the number and the blank in two lists and the text in none. -/
def linkedAmountsRegrouped : List Value :=
  [.text "2.5", .list [.number ten], .list [], .list [.null, .boolean true]]

theorem isSummand_of_mem_linkedAmounts : ∀ item ∈ flatten linkedAmounts, item.IsSummand := by
  simp only [linkedAmounts, flatten, List.flatMap_cons, List.flatMap_nil, List.append_nil,
    List.cons_append, List.nil_append, List.forall_mem_cons, List.not_mem_nil]
  have htext : Value.parseNumber? "2.5" = some ⟨false, 25, 1, by decide, by decide⟩ := by
    decide
  exact ⟨Value.isSummand_number _, Value.isSummand_text htext, Value.isSummand_of_isBlank rfl,
    Value.isSummand_boolean true, fun _ hitem => hitem.elim⟩

theorem aggregates_linkedAmounts :
    (∀ item ∈ flatten linkedAmounts, item.IsSummand) ∧
      (flatten linkedAmounts).Perm (flatten linkedAmountsReordered) ∧
      (∃ s s', sum linkedAmounts = .ok (.number s) ∧
        sum linkedAmountsReordered = .ok (.number s') ∧ s.sameNumber s' = true) ∧
      (flatten linkedAmounts).Perm (flatten linkedAmountsRegrouped) ∧
      Agree SameValue (minimum linkedAmounts) (minimum linkedAmountsRegrouped) := by
  have hitems : List.Forall₂ Value.Reordered linkedAmounts linkedAmountsReordered.reverse :=
    .cons (.items (by decide)) (.cons (.same _) .nil)
  have hreordered := Value.flatten_perm hitems (List.reverse_perm linkedAmountsReordered)
  have hregrouped : (flatten linkedAmounts).Perm (flatten linkedAmountsRegrouped) := by decide
  have hnumbers : numbers linkedAmounts =
      .ok [ten, ⟨false, 25, 1, by decide, by decide⟩, .one] := by decide
  obtain ⟨-, -, -, ns, ns', hns, -, hsum, hfits, -⟩ :=
    aggregates_reordered isSummand_of_mem_linkedAmounts hreordered
  cases hnumbers.symm.trans hns
  obtain ⟨hfit, hfit'⟩ := hfits 1 (by decide) (by decide) (by
    norm_num [magnitude, Decimal.toRat, Decimal.signed, ten, Decimal.one, tenPow, Decimal.capacity])
  exact ⟨isSummand_of_mem_linkedAmounts, hreordered, hsum hfit hfit', hregrouped,
    (aggregates_reordered isSummand_of_mem_linkedAmounts hregrouped).2.1⟩

/-- The greatest whole number. -/
def greatestWhole : Decimal :=
  ⟨false, Decimal.capacity - 1, 0, Decimal.pred_capacity_lt, Nat.zero_le _⟩

/-- One more than the greatest number is no number, even if it is to be taken away again. -/
theorem sum_depends_on_order :
    ¬ ∀ args args', (∀ item ∈ flatten args, item.IsSummand) → args.Perm args' →
      Agree SameValue (sum args) (sum args') := by
  intro h
  have hsummands : ∀ item ∈ flatten [.number greatestWhole, .number .one, .number Decimal.one.neg],
      item.IsSummand := by
    intro item hitem
    simp only [flatten, List.flatMap_cons, List.flatMap_nil, List.append_nil, List.cons_append,
      List.nil_append, List.mem_cons, List.not_mem_nil, or_false] at hitem
    rcases hitem with rfl | rfl | rfl <;> exact Value.isSummand_number _
  have hagree := h _ [.number greatestWhole, .number Decimal.one.neg, .number .one] hsummands
    ((List.Perm.swap _ _ _).cons _)
  have hfails : sum [.number greatestWhole, .number .one, .number Decimal.one.neg] =
      .error .numericOverflow := by decide
  have hgives : sum [.number greatestWhole, .number Decimal.one.neg, .number .one] =
      .ok (.number greatestWhole) := by decide
  rw [hfails, hgives] at hagree
  cases hagree

end Library

end ComputedFields
