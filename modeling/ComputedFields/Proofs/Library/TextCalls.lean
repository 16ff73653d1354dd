import ComputedFields.Proofs.Formula.Scale
import ComputedFields.Proofs.Value.Whole

/-!
# Calls of text functions

What the text functions give for arguments that have texts and stand for whole numbers. A count or a
position that 64 bits do not hold is an overflow.
-/

namespace ComputedFields

open Value (maxInteger ofInt)

section

variable {value : Value} {depth n : ℕ} {z : ℤ} {s : String}

/-- A value that has a text holds no error less than three lists deep. -/
theorem Value.errorWithin_of_asText (h : value.asText = .ok s) (hdepth : depth ≤ 2) :
    value.errorWithin depth = false := by
  refine Bool.eq_false_iff.mpr fun herror => ?_
  obtain ⟨kind, hkind⟩ := heeds_asText.fails (errorWithin_mono herror hdepth)
  cases hkind.symm.trans h

theorem Value.StandsFor.errorWithin (h : value.StandsFor z) (depth : ℕ) :
    value.errorWithin depth = false :=
  Bool.eq_false_iff.mpr fun herror => h.not_holdsError ⟨depth, herror⟩

/-- A whole number other than zero counts as a position, up to the greatest count. -/
theorem Library.toPosition_eq (h : value.StandsFor n) (hn : 1 ≤ n) :
    toPosition value = if (n : ℤ) ≤ maxInteger then .ok n else .error .numericOverflow := by
  rw [toPosition, h.toCount_eq]
  split
  · exact if_neg (by omega)
  · rfl

end

namespace Expr

variable {view : View Id} {now : Calendar.DateTime} {a b c d : Expr} {s t u : String} {k n : ℕ}

theorem asText_of_text (h : a.eval view now = .text s) : (a.eval view now).asText = .ok s := by
  rw [h]
  rfl

theorem asText_literal (s : String) : ((literal (.text s)).eval view now).asText = .ok s :=
  asText_of_text rfl

theorem standsFor_literal {z : ℤ} (h : z.natAbs < Decimal.capacity) :
    ((literal (ofInt z)).eval view now).StandsFor z := by
  rw [eval, evalM]
  exact Value.standsFor_ofInt h

/-- The least number beyond all counts. -/
def beyondCounts : Expr := literal (ofInt (9223372036854775808 : ℕ))

theorem standsFor_beyondCounts : (beyondCounts.eval view now).StandsFor (9223372036854775808 : ℕ) :=
  standsFor_literal (by decide)

/-- A function is run on arguments without errors in them. -/
theorem eval_call_of_errorWithin {name : String} {f : Function} {args : List Expr}
    (hf : Library.find? name = some f) (haccepts : f.accepts args.length = true)
    (hargs : ∀ arg ∈ args, (arg.eval view now).errorWithin 1 = false) :
    (call name args).eval view now =
      .ofResult (f.run now (args.map fun arg => arg.eval view now)) := by
  have hnone : Value.firstError? (args.map fun arg => arg.eval view now) = none :=
    Value.firstError?_eq_none.mpr (List.forall_mem_map.mpr hargs)
  rw [eval_call, hf]
  show (if f.accepts args.length = true then _ else _) = _
  rw [if_pos haccepts, Function.apply, hnone]
  cases f.errors <;> rfl

/-! ## Whole texts -/

theorem eval_concat (ha : (a.eval view now).asText = .ok s)
    (hb : (b.eval view now).asText = .ok t) :
    (binary .concat a b).eval view now = .text (s ++ t) := by
  have herror {value : Value} {s : String} (h : value.asText = .ok s) : value.error? = none :=
    Value.error?_eq_none.mpr (Value.errorWithin_of_asText h (by decide))
  show Value.applyBinary .concat (a.eval view now) (b.eval view now) = _
  rw [Value.applyBinary, herror ha, herror hb]
  show Value.ofResult (Value.concat _ _) = _
  rw [Value.concat, ha, hb]
  rfl

theorem eval_len (ha : (a.eval view now).asText = .ok s) :
    (call "LEN" [a]).eval view now = ofInt s.toList.length := by
  rw [eval_call_of_errorWithin rfl rfl
    (by simpa using Value.errorWithin_of_asText ha (by decide))]
  show Value.ofResult ((a.eval view now).asText.map _) = _
  rw [ha]
  rfl

/-! ## Slices -/

theorem eval_left (ha : (a.eval view now).asText = .ok s) (hb : (b.eval view now).StandsFor n) :
    (call "LEFT" [a, b]).eval view now =
      if (n : ℤ) ≤ maxInteger then .text (Library.takeLeft s n) else .error .numericOverflow := by
  rw [eval_call_of_errorWithin rfl rfl
    (by simpa using ⟨Value.errorWithin_of_asText ha (by decide), hb.errorWithin 1⟩)]
  show Value.ofResult (Library.left [a.eval view now, b.eval view now]) = _
  rw [Library.left, ha, Library.countOrOne, hb.toCount_eq]
  split <;> rfl

theorem eval_right (ha : (a.eval view now).asText = .ok s) (hb : (b.eval view now).StandsFor n) :
    (call "RIGHT" [a, b]).eval view now =
      if (n : ℤ) ≤ maxInteger then .text (Library.takeRight s n) else .error .numericOverflow := by
  rw [eval_call_of_errorWithin rfl rfl
    (by simpa using ⟨Value.errorWithin_of_asText ha (by decide), hb.errorWithin 1⟩)]
  show Value.ofResult (Library.right [a.eval view now, b.eval view now]) = _
  rw [Library.right, ha, Library.countOrOne, hb.toCount_eq]
  split <;> rfl

theorem eval_mid (ha : (a.eval view now).asText = .ok s) (hb : (b.eval view now).StandsFor k)
    (hk : 1 ≤ k) (hc : (c.eval view now).StandsFor n) :
    (call "MID" [a, b, c]).eval view now =
      if (k : ℤ) ≤ maxInteger ∧ (n : ℤ) ≤ maxInteger then .text (Library.takeMid s k n)
      else .error .numericOverflow := by
  rw [eval_call_of_errorWithin rfl rfl (by
    simpa using ⟨Value.errorWithin_of_asText ha (by decide), hb.errorWithin 1, hc.errorWithin 1⟩)]
  show Value.ofResult (Library.mid [a.eval view now, b.eval view now, c.eval view now]) = _
  rw [Library.mid, ha, Library.toPosition_eq hb hk, hc.toCount_eq]
  by_cases hmax : (k : ℤ) ≤ maxInteger <;> by_cases hmax' : (n : ℤ) ≤ maxInteger <;>
    simp only [hmax, hmax', if_true, if_false, and_true, and_false] <;> rfl

theorem eval_replace (ha : (a.eval view now).asText = .ok s) (hb : (b.eval view now).StandsFor k)
    (hk : 1 ≤ k) (hc : (c.eval view now).StandsFor n) (hd : (d.eval view now).asText = .ok t) :
    (call "REPLACE" [a, b, c, d]).eval view now =
      if (k : ℤ) ≤ maxInteger ∧ (n : ℤ) ≤ maxInteger then .text (Library.replaceSlice s k n t)
      else .error .numericOverflow := by
  rw [eval_call_of_errorWithin rfl rfl (by
    simpa using ⟨Value.errorWithin_of_asText ha (by decide), hb.errorWithin 1, hc.errorWithin 1,
      Value.errorWithin_of_asText hd (by decide)⟩)]
  show Value.ofResult (Library.replace
    [a.eval view now, b.eval view now, c.eval view now, d.eval view now]) = _
  rw [Library.replace, ha, Library.toPosition_eq hb hk, hc.toCount_eq, hd]
  by_cases hmax : (k : ℤ) ≤ maxInteger <;> by_cases hmax' : (n : ℤ) ≤ maxInteger <;>
    simp only [hmax, hmax', if_true, if_false, and_true, and_false] <;> rfl

/-! ## Search -/

theorem eval_find (ha : (a.eval view now).asText = .ok s) (hb : (b.eval view now).asText = .ok t)
    (hc : (c.eval view now).StandsFor n) (hn : 1 ≤ n) :
    (call "FIND" [a, b, c]).eval view now =
      if (n : ℤ) ≤ maxInteger then ofInt (Library.findFrom s t n)
      else .error .numericOverflow := by
  rw [eval_call_of_errorWithin rfl rfl (by
    simpa using ⟨Value.errorWithin_of_asText ha (by decide),
      Value.errorWithin_of_asText hb (by decide), hc.errorWithin 1⟩)]
  show Value.ofResult (Library.find [a.eval view now, b.eval view now, c.eval view now]) = _
  rw [Library.find, ha, hb, Library.positionOrOne, Library.toPosition_eq hc hn]
  split <;> rfl

theorem eval_substitute (ha : (a.eval view now).asText = .ok s)
    (hb : (b.eval view now).asText = .ok t) (hc : (c.eval view now).asText = .ok u) :
    (call "SUBSTITUTE" [a, b, c]).eval view now = .text (Library.substituteText s t u none) := by
  rw [eval_call_of_errorWithin rfl rfl (by
    simpa using ⟨Value.errorWithin_of_asText ha (by decide),
      Value.errorWithin_of_asText hb (by decide), Value.errorWithin_of_asText hc (by decide)⟩)]
  show Value.ofResult (Library.substitute
    [a.eval view now, b.eval view now, c.eval view now]) = _
  rw [Library.substitute, ha, hb, hc]
  rfl

/-- Which occurrence is meant is not asked where nothing is to be substituted. -/
theorem eval_substituteNth (ha : (a.eval view now).asText = .ok s)
    (hb : (b.eval view now).asText = .ok t) (hc : (c.eval view now).asText = .ok u)
    (hd : (d.eval view now).StandsFor n) (hn : 1 ≤ n) :
    (call "SUBSTITUTE" [a, b, c, d]).eval view now =
      if t.isEmpty = true ∨ (n : ℤ) ≤ maxInteger then
        .text (Library.substituteText s t u (some n))
      else .error .numericOverflow := by
  rw [eval_call_of_errorWithin rfl rfl (by
    simpa using ⟨Value.errorWithin_of_asText ha (by decide),
      Value.errorWithin_of_asText hb (by decide), Value.errorWithin_of_asText hc (by decide),
      hd.errorWithin 1⟩)]
  show Value.ofResult (Library.substitute
    [a.eval view now, b.eval view now, c.eval view now, d.eval view now]) = _
  rw [Library.substitute, ha, hb, hc]
  show Value.ofResult (if t.isEmpty = true then .ok (.text s) else _) = _
  rw [Library.toPosition_eq hd hn]
  cases hempty : t.isEmpty with
  | true =>
    rw [Library.substituteText, hempty]
    rfl
  | false =>
    by_cases hmax : (n : ℤ) ≤ maxInteger <;>
      simp only [hmax, if_true, if_false, or_true, or_false, Bool.false_eq_true] <;> rfl

end Expr

end ComputedFields
