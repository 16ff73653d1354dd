import ComputedFields.Proofs.Library.TextCalls
import ComputedFields.Proofs.Text.Occurrences

/-!
# Search and substitution

A search by position gives the first occurrence from there on. A substitution puts another text in
the place of the occurrences that do not overlap, from the left: of all of them, or of the one with
a number.
-/

namespace ComputedFields

open Text (OccursAt Pieces)
open Value (maxInteger ofInt)

namespace Library

variable {needle haystack s old new : String} {start k : ℕ} {pieces : List (List Char)}

/-- The first position, counted from 1, from a start on. -/
theorem findFrom_cases (needle haystack : String) (hstart : 1 ≤ start) :
    IsLeast {p | start ≤ p ∧ OccursAt needle.toList haystack.toList (p - 1)}
        (findFrom needle haystack start) ∨
      findFrom needle haystack start = 0 ∧
        ∀ p, start ≤ p → ¬ OccursAt needle.toList haystack.toList (p - 1) := by
  rw [findFrom]
  split
  · rename_i hpast
    refine .inr ⟨rfl, fun p hp hoccurs => ?_⟩
    have hwithin := hoccurs.1
    omega
  · rename_i hwithin
    have hshift (n : ℕ) : OccursAt needle.toList (haystack.toList.drop (start - 1)) n ↔
        OccursAt needle.toList haystack.toList (start + n - 1) := by
      rw [Text.occursAt_drop (Nat.not_lt.mp hwithin), Nat.sub_add_comm hstart]
    rcases Text.position?_cases needle.toList (haystack.toList.drop (start - 1)) with
      ⟨n, hn, hoccurs, hleast⟩ | ⟨hnone, hnot⟩
    · rw [hn]
      refine .inl ⟨⟨Nat.le_add_right _ _, (hshift n).mp hoccurs⟩, fun p hp => ?_⟩
      obtain ⟨m, rfl⟩ := Nat.exists_eq_add_of_le hp.1
      exact Nat.add_le_add_left (hleast ((hshift m).mpr hp.2)) start
    · rw [hnone]
      refine .inr ⟨rfl, fun p hp hoccurs => ?_⟩
      obtain ⟨m, rfl⟩ := Nat.exists_eq_add_of_le hp
      exact hnot m ((hshift m).mpr hoccurs)

/-- Where every occurrence is replaced, the pieces between them are joined anew. -/
theorem substituteText_all (hold : old ≠ "") (h : Pieces old.toList s.toList pieces) :
    substituteText s old new none = String.ofList (new.toList.intercalate pieces) := by
  have hempty : ¬ old.isEmpty = true := by rwa [String.isEmpty_iff]
  have hchars : old.toList ≠ [] := by rwa [Ne, String.toList_eq_nil_iff]
  rw [substituteText, if_neg hempty]
  exact congrArg String.ofList (h.replaceAll_eq hchars)

/-- Where one occurrence is replaced, the pieces before it and those after it stay together. -/
theorem substituteText_nth (hold : old ≠ "") (h : Pieces old.toList s.toList pieces) (hk : 1 ≤ k) :
    substituteText s old new (some k) =
      if k < pieces.length then
        String.ofList (old.toList.intercalate (pieces.take k) ++ new.toList ++
          old.toList.intercalate (pieces.drop k))
      else s := by
  have hempty : ¬ old.isEmpty = true := by rwa [String.isEmpty_iff]
  have hchars : old.toList ≠ [] := by rwa [Ne, String.toList_eq_nil_iff]
  obtain ⟨earlier, rfl⟩ := Nat.exists_eq_add_of_le' hk
  rw [substituteText, if_neg hempty]
  show String.ofList (Text.replaceNth old.toList new.toList earlier 0 s.toList) = _
  rw [h.replaceNth_eq hchars, apply_ite String.ofList, String.ofList_toList]

end Library

namespace Expr

variable {view : View Id} {now : Calendar.DateTime} {a b c d : Expr}
  {needle haystack s old new : String} {start k : ℕ}

/-- From a position that a count can be, the search for a text gives the least position at which the
text occurs, and zero if there is none. -/
theorem find_first (ha : (a.eval view now).asText = .ok needle)
    (hb : (b.eval view now).asText = .ok haystack) (hc : (c.eval view now).StandsFor start)
    (hstart : 1 ≤ start) :
    let found := (call "FIND" [a, b, c]).eval view now
    ((start : ℤ) ≤ maxInteger →
      ((∃ p : ℕ, found = ofInt p ∧
          IsLeast {p | start ≤ p ∧ OccursAt needle.toList haystack.toList (p - 1)} p) ∨
        found = ofInt 0 ∧ ∀ p, start ≤ p → ¬ OccursAt needle.toList haystack.toList (p - 1)) ∧
      (haystack.toList.length + 1 < start → found = ofInt 0) ∧
      (needle = "" → start ≤ haystack.toList.length + 1 → found = ofInt start)) ∧
    (maxInteger < (start : ℤ) → found = .error .numericOverflow) := by
  intro found
  have hfound := eval_find ha hb hc hstart
  refine ⟨fun hmax => ?_, fun hmax => hfound.trans (if_neg (not_le.mpr hmax))⟩
  have hfound : found = ofInt (Library.findFrom needle haystack start) :=
    hfound.trans (if_pos hmax)
  rw [hfound]
  rcases Library.findFrom_cases needle haystack hstart with hleast | ⟨hzero, hnot⟩
  · refine ⟨.inl ⟨_, rfl, hleast⟩, fun hpast => ?_, fun hempty hwithin => ?_⟩
    · obtain ⟨hle, hwithin, -⟩ := hleast.1
      omega
    · have hoccurs : OccursAt needle.toList haystack.toList (start - 1) :=
        ⟨by omega, by rw [hempty]; exact List.nil_prefix⟩
      rw [le_antisymm (hleast.2 ⟨le_refl _, hoccurs⟩) hleast.1.1]
  · rw [hzero]
    refine ⟨.inr ⟨rfl, hnot⟩, fun _ => rfl, fun hempty hwithin => ?_⟩
    exact absurd ⟨by omega, by rw [hempty]; exact List.nil_prefix⟩ (hnot start (le_refl _))

/-- The second of two occurrences, found from a start behind the first one. -/
theorem find_first_banana :
    (call "FIND" [literal (.text "na"), literal (.text "banana"), literal (ofInt (4 : ℕ))]).eval
      .blank Library.midsummer = ofInt 5 := by
  have hfour : ((literal (ofInt (4 : ℕ))).eval .blank Library.midsummer).StandsFor (4 : ℕ) :=
    standsFor_literal (by decide)
  obtain ⟨hfound, -⟩ :=
    find_first (asText_literal "na") (asText_literal "banana") hfour (by decide)
  obtain ⟨⟨p, hp, hleast⟩ | ⟨-, hnone⟩, -⟩ := hfound (by decide)
  · have hfive : IsLeast {p | 4 ≤ p ∧ OccursAt "na".toList "banana".toList (p - 1)} 5 := by
      refine ⟨by decide, fun q hq => ?_⟩
      by_contra hlt
      obtain rfl : q = 4 := by have := hq.1; omega
      exact absurd hq.2 (by decide)
    rw [hp, hleast.unique hfive]
    rfl
  · exact absurd (by decide) (hnone 5 (by decide))

/-- Such a start too lies behind the text, but the search gives no position. -/
theorem find_beyondCounts :
    (beyondCounts.eval .blank Library.midsummer).StandsFor (9223372036854775808 : ℕ) ∧
      "b".toList.length + 1 < 9223372036854775808 ∧
      (call "FIND" [literal (.text "a"), literal (.text "b"), beyondCounts]).eval
        .blank Library.midsummer ≠ ofInt 0 := by
  refine ⟨standsFor_beyondCounts, by decide, ?_⟩
  rw [eval_find (asText_literal "a") (asText_literal "b") standsFor_beyondCounts (by decide),
    if_neg (by decide)]
  decide

/-- The occurrences that do not overlap, from the left, cut a text into pieces in one way. A
substitution joins these pieces by the new text, or puts the new text in the place of the one
occurrence with a number that a count can be. -/
theorem substitute_joins_pieces (ha : (a.eval view now).asText = .ok s)
    (hb : (b.eval view now).asText = .ok old) (hc : (c.eval view now).asText = .ok new)
    (hd : (d.eval view now).StandsFor k) (hk : 1 ≤ k) :
    let all := (call "SUBSTITUTE" [a, b, c]).eval view now
    let one := (call "SUBSTITUTE" [a, b, c, d]).eval view now
    (old = "" → all = .text s ∧ one = .text s) ∧
    (old ≠ "" →
      (∃ pieces, Pieces old.toList s.toList pieces ∧
        (∀ other, Pieces old.toList s.toList other → other = pieces) ∧
        s.toList = old.toList.intercalate pieces ∧
        all = .text (String.ofList (new.toList.intercalate pieces)) ∧
        ((k : ℤ) ≤ maxInteger →
          (k < pieces.length →
            one = .text (String.ofList (old.toList.intercalate (pieces.take k) ++ new.toList ++
              old.toList.intercalate (pieces.drop k)))) ∧
          (pieces.length ≤ k → one = .text s))) ∧
      (maxInteger < (k : ℤ) → one = .error .numericOverflow)) := by
  intro all one
  have hall : all = .text (Library.substituteText s old new none) := eval_substitute ha hb hc
  have hone := eval_substituteNth ha hb hc hd hk
  constructor
  · rintro rfl
    exact ⟨hall, hone.trans (if_pos (.inl rfl))⟩
  · intro hold
    have hempty : ¬ old.isEmpty = true := by rwa [String.isEmpty_iff]
    refine ⟨?_, fun hmax => hone.trans (if_neg (not_or.mpr ⟨hempty, not_le.mpr hmax⟩))⟩
    have hchars : old.toList ≠ [] := by rwa [Ne, String.toList_eq_nil_iff]
    obtain ⟨pieces, hpieces⟩ := Text.exists_pieces hchars s.toList
    refine ⟨pieces, hpieces, fun other hother => hother.unique hpieces,
      hpieces.intercalate_eq.symm, by rw [hall, Library.substituteText_all hold hpieces],
      fun hmax => ?_⟩
    have hone : one = .text (Library.substituteText s old new (some k)) :=
      hone.trans (if_pos (.inr hmax))
    rw [hone, Library.substituteText_nth hold hpieces hk]
    exact ⟨fun hlt => by rw [if_pos hlt], fun hle => by rw [if_neg (not_lt.mpr hle)]⟩

/-- A text that overlaps itself occurs twice among five of its characters. -/
theorem pieces_fiveAs : Pieces "aa".toList "aaaaa".toList [[], [], ['a']] := by
  have hnone (n : ℕ) : ¬ OccursAt "aa".toList ['a'] n := fun h => by
    have hlength := h.2.length_le
    rw [List.length_drop] at hlength
    exact absurd hlength (by simp)
  exact .next rfl ⟨by decide, fun _ _ => Nat.zero_le _⟩
    (.next rfl ⟨by decide, fun _ _ => Nat.zero_le _⟩ (.last hnone))

theorem substitute_fiveAs :
    (call "SUBSTITUTE" [literal (.text "aaaaa"), literal (.text "aa"), literal (.text "b")]).eval
        .blank Library.midsummer = .text "bba" ∧
      (call "SUBSTITUTE" [literal (.text "aaaaa"), literal (.text "aa"), literal (.text "b"),
        literal (ofInt (2 : ℕ))]).eval .blank Library.midsummer = .text "aaba" := by
  have htwo : ((literal (ofInt (2 : ℕ))).eval .blank Library.midsummer).StandsFor (2 : ℕ) :=
    standsFor_literal (by decide)
  obtain ⟨-, hsome⟩ := substitute_joins_pieces (asText_literal "aaaaa") (asText_literal "aa")
    (asText_literal "b") htwo (by decide)
  obtain ⟨⟨pieces, -, hunique, -, hall, hone⟩, -⟩ := hsome (by decide)
  obtain rfl := hunique _ pieces_fiveAs
  exact ⟨hall, (hone (by decide)).1 (by decide)⟩

/-- A text without the one to be replaced has no such occurrence, but it is not given back. -/
theorem substitute_beyondCounts :
    (beyondCounts.eval .blank Library.midsummer).StandsFor (9223372036854775808 : ℕ) ∧
      Pieces "b".toList "a".toList ["a".toList] ∧
      (call "SUBSTITUTE" [literal (.text "a"), literal (.text "b"), literal (.text "c"),
        beyondCounts]).eval .blank Library.midsummer ≠ .text "a" := by
  have hnone (n : ℕ) : ¬ OccursAt "b".toList "a".toList n := fun h => by
    have hle : n ≤ 1 := h.1
    interval_cases n <;> exact absurd h (by decide)
  refine ⟨standsFor_beyondCounts, .last hnone, ?_⟩
  rw [eval_substituteNth (asText_literal "a") (asText_literal "b") (asText_literal "c")
    standsFor_beyondCounts (by decide), if_neg (by decide)]
  decide

end Expr

end ComputedFields
