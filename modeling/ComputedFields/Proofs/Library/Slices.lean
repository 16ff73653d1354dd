import ComputedFields.Proofs.Library.TextCalls

/-!
# Slices of texts

The functions that cut texts count characters in the same way: what one takes away another one
leaves, from the left, from the right, and in the middle.
-/

namespace ComputedFields

open Value (maxInteger ofInt)

namespace Library

variable {s t : String} {k n : ℕ}

theorem length_takeLeft (s : String) (n : ℕ) :
    (takeLeft s n).toList.length = min n s.toList.length := by
  rw [takeLeft, String.toList_ofList, List.length_take]

theorem length_takeRight (s : String) (n : ℕ) :
    (takeRight s n).toList.length = min n s.toList.length := by
  rw [takeRight, String.toList_ofList, List.length_drop]
  omega

theorem takeMid_one (s : String) (n : ℕ) : takeMid s 1 n = takeLeft s n := rfl

theorem length_takeMid_le (s : String) (k n : ℕ) : (takeMid s k n).toList.length ≤ n := by
  rw [takeMid, String.toList_ofList]
  exact List.length_take_le _ _

/-- What is taken from the left and the rest from the right make up the text. -/
theorem takeLeft_append_takeRight (h : n ≤ s.toList.length) :
    takeLeft s n ++ takeRight s (s.toList.length - n) = s := by
  rw [takeLeft, takeRight, ← String.ofList_append, Nat.sub_sub_self h, List.take_append_drop,
    String.ofList_toList]

theorem replaceSlice_eq (hk : 1 ≤ k) : replaceSlice s k n t =
    takeLeft s (k - 1) ++ t ++ String.ofList (s.toList.drop (k + n - 1)) := by
  rw [replaceSlice, takeLeft, String.ofList_append, String.ofList_append, String.ofList_toList,
    Nat.sub_add_comm hk]

/-- What is cut out and put back in its place leaves the text as it was. -/
theorem replaceSlice_takeMid (s : String) (k n : ℕ) :
    replaceSlice s k (takeMid s k n).toList.length (takeMid s k n) = s := by
  -- towards the end of the text less is cut out than is asked for
  have hrest : (s.toList.drop (k - 1)).drop ((s.toList.drop (k - 1)).take n).length =
      (s.toList.drop (k - 1)).drop n := by
    rw [List.length_take, List.drop_eq_drop_iff]
    omega
  rw [replaceSlice, takeMid, String.toList_ofList, ← List.drop_drop, hrest, List.append_assoc,
    List.take_append_drop, List.take_append_drop, String.ofList_toList]

end Library

namespace Expr

variable {view : View Id} {now : Calendar.DateTime} {a b c d : Expr} {s t : String} {k m n : ℕ}

/-- The number one. -/
def one : Expr := literal (ofInt (1 : ℕ))

theorem standsFor_one : (one.eval view now).StandsFor (1 : ℕ) := standsFor_literal (by decide)

theorem standsFor_difference (ha : (a.eval view now).StandsFor m)
    (hb : (b.eval view now).StandsFor n) (hle : n ≤ m) :
    ((binary .subtract a b).eval view now).StandsFor (m - n : ℕ) := by
  rw [Nat.cast_sub hle]
  exact ha.subtract hb (Int.natCast_nonneg m) (Int.natCast_nonneg n)

theorem standsFor_len (ha : (a.eval view now).asText = .ok s)
    (hs : (s.toList.length : ℤ) ≤ maxInteger) :
    ((call "LEN" [a]).eval view now).StandsFor s.toList.length := by
  rw [eval_len ha]
  refine Value.standsFor_ofInt ?_
  have hmax : maxInteger.natAbs < Decimal.capacity := by decide
  rw [maxInteger] at hs hmax
  omega

/-! ## Counts and positions up to the greatest -/

theorem eval_left_concat_right (ha : (a.eval view now).asText = .ok s)
    (hb : (b.eval view now).StandsFor n) (hs : (s.toList.length : ℤ) ≤ maxInteger)
    (hn : n ≤ s.toList.length) :
    (binary .concat (call "LEFT" [a, b])
      (call "RIGHT" [a, binary .subtract (call "LEN" [a]) b])).eval view now = .text s := by
  have hleft := eval_left ha hb
  have hright := eval_right ha (standsFor_difference (standsFor_len ha hs) hb hn)
  rw [if_pos (by omega)] at hleft hright
  rw [eval_concat (asText_of_text hleft) (asText_of_text hright),
    Library.takeLeft_append_takeRight hn]

theorem eval_mid_one (ha : (a.eval view now).asText = .ok s) (hb : (b.eval view now).StandsFor n) :
    (call "MID" [a, one, b]).eval view now = (call "LEFT" [a, b]).eval view now := by
  rw [eval_mid ha standsFor_one (le_refl 1) hb, eval_left ha hb, Library.takeMid_one]
  exact if_congr (and_iff_right (by decide)) rfl rfl

theorem eval_replace_split (ha : (a.eval view now).asText = .ok s)
    (hc : (c.eval view now).StandsFor k) (hd : (d.eval view now).asText = .ok t) (hk : 1 ≤ k)
    (hkmax : (k : ℤ) ≤ maxInteger) (n : ℕ) :
    (binary .concat (binary .concat (call "LEFT" [a, binary .subtract c one]) d)
      (literal (.text (String.ofList (s.toList.drop (k + n - 1)))))).eval view now =
        .text (Library.replaceSlice s k n t) := by
  have hleft := eval_left ha (standsFor_difference hc standsFor_one hk)
  rw [if_pos (by omega)] at hleft
  have hfront := eval_concat (asText_of_text hleft) hd
  rw [eval_concat (asText_of_text hfront) (asText_of_text rfl), Library.replaceSlice_eq hk]

theorem eval_replace_mid (ha : (a.eval view now).asText = .ok s)
    (hb : (b.eval view now).StandsFor n) (hc : (c.eval view now).StandsFor k) (hk : 1 ≤ k)
    (hkmax : (k : ℤ) ≤ maxInteger) (hnmax : (n : ℤ) ≤ maxInteger) :
    (call "REPLACE" [a, c, call "LEN" [call "MID" [a, c, b]], call "MID" [a, c, b]]).eval view now =
      .text s := by
  have hmid := eval_mid ha hc hk hb
  rw [if_pos ⟨hkmax, hnmax⟩] at hmid
  have htext := asText_of_text hmid
  have hlength := Library.length_takeMid_le s k n
  have hlen := standsFor_len htext (by omega)
  rw [eval_replace ha hc hk hlen htext, if_pos ⟨hkmax, by omega⟩, Library.replaceSlice_takeMid]

/-! ## All slices -/

/-- For all counts and positions up to the greatest: what is taken from the left and the rest from
the right make up the text, slices from the left are those in the middle from the first position on,
they are as long as the text allows, replacing a slice puts the new text between what is before it
and what is after it, and a slice put back in its place leaves the text as it was. All other counts
and positions are overflows. -/
theorem slices_fit (ha : (a.eval view now).asText = .ok s) (hb : (b.eval view now).StandsFor n)
    (hc : (c.eval view now).StandsFor k) (hd : (d.eval view now).asText = .ok t) (hk : 1 ≤ k) :
    let rest := literal (.text (String.ofList (s.toList.drop (k + n - 1))))
    (call "LEN" [a]).eval view now = ofInt s.toList.length ∧
    ((n : ℤ) ≤ maxInteger →
      ((s.toList.length : ℤ) ≤ maxInteger → n ≤ s.toList.length →
        (binary .concat (call "LEFT" [a, b])
          (call "RIGHT" [a, binary .subtract (call "LEN" [a]) b])).eval view now = .text s) ∧
      (∃ slice, (call "MID" [a, one, b]).eval view now = .text slice ∧
        (call "LEFT" [a, b]).eval view now = .text slice) ∧
      (call "LEN" [call "LEFT" [a, b]]).eval view now = ofInt (min n s.toList.length : ℕ) ∧
      (call "LEN" [call "RIGHT" [a, b]]).eval view now = ofInt (min n s.toList.length : ℕ) ∧
      ((k : ℤ) ≤ maxInteger →
        (∃ replaced, (call "REPLACE" [a, c, b, d]).eval view now = .text replaced ∧
          (binary .concat (binary .concat (call "LEFT" [a, binary .subtract c one]) d) rest).eval
            view now = .text replaced) ∧
        (call "REPLACE" [a, c, call "LEN" [call "MID" [a, c, b]], call "MID" [a, c, b]]).eval
          view now = .text s)) ∧
    (maxInteger < (n : ℤ) →
      (call "LEFT" [a, b]).eval view now = .error .numericOverflow ∧
      (call "RIGHT" [a, b]).eval view now = .error .numericOverflow) ∧
    (maxInteger < (n : ℤ) ∨ maxInteger < (k : ℤ) →
      (call "MID" [a, c, b]).eval view now = .error .numericOverflow ∧
      (call "REPLACE" [a, c, b, d]).eval view now = .error .numericOverflow) := by
  intro rest
  have hleft := eval_left ha hb
  have hright := eval_right ha hb
  have hreplace := eval_replace ha hc hk hb hd
  refine ⟨eval_len ha, fun hnmax => ?_, fun hnmax => ?_, fun hmax => ?_⟩
  · rw [if_pos hnmax] at hleft hright
    refine ⟨fun hs hn => eval_left_concat_right ha hb hs hn,
      ⟨_, (eval_mid_one ha hb).trans hleft, hleft⟩, ?_, ?_, fun hkmax => ⟨?_, ?_⟩⟩
    · rw [eval_len (asText_of_text hleft), Library.length_takeLeft]
    · rw [eval_len (asText_of_text hright), Library.length_takeRight]
    · rw [if_pos ⟨hkmax, hnmax⟩] at hreplace
      exact ⟨_, hreplace, eval_replace_split ha hc hd hk hkmax n⟩
    · exact eval_replace_mid ha hb hc hk hkmax hnmax
  · have hnot : ¬ (n : ℤ) ≤ maxInteger := not_le.mpr hnmax
    exact ⟨hleft.trans (if_neg hnot), hright.trans (if_neg hnot)⟩
  · have hnot : ¬ ((k : ℤ) ≤ maxInteger ∧ (n : ℤ) ≤ maxInteger) := by omega
    exact ⟨(eval_mid ha hc hk hb).trans (if_neg hnot), hreplace.trans (if_neg hnot)⟩

/-- A text of three characters and four bytes, cut after the second one and put together. -/
theorem slices_fit_two :
    (binary .concat (call "LEFT" [literal (.text "día"), literal (ofInt (2 : ℕ))])
      (call "RIGHT" [literal (.text "día"), binary .subtract (call "LEN" [literal (.text "día")])
        (literal (ofInt (2 : ℕ)))])).eval .blank Library.midsummer = .text "día" := by
  have htwo : ((literal (ofInt (2 : ℕ))).eval .blank Library.midsummer).StandsFor (2 : ℕ) :=
    standsFor_literal (by decide)
  obtain ⟨-, hfit, -⟩ :=
    slices_fit (asText_literal "día") htwo htwo (asText_literal "x") (by decide)
  exact (hfit (by decide)).1 (by decide) (by decide)

/-- A slice of so many characters is no longer than the text, but it is not given. -/
theorem left_beyondCounts :
    (beyondCounts.eval .blank Library.midsummer).StandsFor (9223372036854775808 : ℕ) ∧
      (call "LEN" [call "LEFT" [literal (.text "abc"), beyondCounts]]).eval
        .blank Library.midsummer ≠ ofInt (min 9223372036854775808 "abc".toList.length : ℕ) := by
  refine ⟨standsFor_beyondCounts, ?_⟩
  decide

end Expr

end ComputedFields
