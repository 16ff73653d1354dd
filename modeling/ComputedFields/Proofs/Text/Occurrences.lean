import ComputedFields.Text.Search
import Mathlib.Order.Bounds.Basic

/-!
# Occurrences

The search for a text gives its first occurrence. The first occurrence, the first one after its end,
and so on, cut a text into pieces. Replacing occurrences, all of them or the one with a number,
joins these pieces anew.
-/

namespace ComputedFields.Text

variable {needle old new cs piece rest taken : List Char} {n earlier : ℕ} {c : Char}
  {pieces pieces' : List (List Char)}

/-! ## The first occurrence -/

/-- After `n` characters a text begins with another one. -/
def OccursAt (needle cs : List Char) (n : ℕ) : Prop := n ≤ cs.length ∧ needle <+: cs.drop n

instance : Decidable (OccursAt needle cs n) := inferInstanceAs (Decidable (_ ∧ _))

theorem occursAt_zero : OccursAt needle cs 0 ↔ startsWith needle cs = true := by
  rw [startsWith, List.isPrefixOf_iff_prefix, OccursAt, List.drop_zero]
  exact and_iff_right (Nat.zero_le _)

theorem occursAt_succ : OccursAt needle (c :: cs) (n + 1) ↔ OccursAt needle cs n := by
  rw [OccursAt, OccursAt, List.length_cons, Nat.add_le_add_iff_right, List.drop_succ_cons]

/-- What occurs after the first `k` characters does so that much later in the whole text. -/
theorem occursAt_drop {k : ℕ} (hk : k ≤ cs.length) :
    OccursAt needle (cs.drop k) n ↔ OccursAt needle cs (k + n) := by
  rw [OccursAt, OccursAt, List.length_drop, List.drop_drop, Nat.le_sub_iff_add_le' hk]

/-- The search gives the first position at which the text occurs, if there is one. -/
theorem position?_cases (needle cs : List Char) :
    (∃ n, position? needle cs = some n ∧ IsLeast {m | OccursAt needle cs m} n) ∨
      position? needle cs = none ∧ ∀ m, ¬ OccursAt needle cs m := by
  induction cs with
  | nil =>
    cases needle with
    | nil => exact .inl ⟨0, rfl, ⟨Nat.le_refl 0, List.nil_prefix⟩, fun _ _ => Nat.zero_le _⟩
    | cons c needle => exact .inr ⟨rfl, fun m h => by simp [OccursAt] at h⟩
  | cons c cs ih =>
    rw [position?]
    split
    · rename_i hstarts
      exact .inl ⟨0, rfl, occursAt_zero.mpr hstarts, fun _ _ => Nat.zero_le _⟩
    · rename_i hstarts
      -- what occurs does so after the first character
      have hlater {m : ℕ} (h : OccursAt needle (c :: cs) m) :
          ∃ k, m = k + 1 ∧ OccursAt needle cs k := by
        cases m with
        | zero => exact absurd (occursAt_zero.mp h) hstarts
        | succ k => exact ⟨k, rfl, occursAt_succ.mp h⟩
      rcases ih with ⟨n, hn, hoccurs, hleast⟩ | ⟨hnone, hnot⟩
      · refine .inl ⟨n + 1, by rw [hn]; rfl, occursAt_succ.mpr hoccurs, fun m hm => ?_⟩
        obtain ⟨k, rfl, hk⟩ := hlater hm
        exact Nat.succ_le_succ (hleast hk)
      · refine .inr ⟨by rw [hnone]; rfl, fun m hm => ?_⟩
        obtain ⟨k, -, hk⟩ := hlater hm
        exact hnot k hk

/-! ## Pieces -/

/-- The pieces of a text between the occurrences of `old`, from the left and without overlap. -/
inductive Pieces (old : List Char) : List Char → List (List Char) → Prop
  /-- There is no further occurrence. -/
  | last {cs : List Char} (hnone : ∀ n, ¬ OccursAt old cs n) : Pieces old cs [cs]
  /-- The first occurrence comes after this piece. -/
  | next {cs piece rest : List Char} {pieces : List (List Char)} (hcs : cs = piece ++ (old ++ rest))
      (hfirst : IsLeast {n | OccursAt old cs n} piece.length) (hrest : Pieces old rest pieces) :
    Pieces old cs (piece :: pieces)

theorem exists_pieces (hold : old ≠ []) (cs : List Char) : ∃ pieces, Pieces old cs pieces := by
  rcases position?_cases old cs with ⟨n, -, hfirst⟩ | ⟨-, hnone⟩
  · -- what comes after the first occurrence is shorter, as `old` is not empty
    obtain ⟨hn, rest, hrest⟩ := hfirst.1
    have hshorter : rest.length < cs.length := by
      have hlength := congrArg List.length hrest
      have hpos := List.length_pos_iff.mpr hold
      rw [List.length_append, List.length_drop] at hlength
      omega
    obtain ⟨pieces, hpieces⟩ := exists_pieces hold rest
    have hpiece : (cs.take n).length = n := List.length_take_of_le hn
    exact ⟨cs.take n :: pieces,
      .next (by rw [hrest, List.take_append_drop]) (by rwa [hpiece]) hpieces⟩
  · exact ⟨[cs], .last hnone⟩
termination_by cs.length

theorem Pieces.unique (h : Pieces old cs pieces) (h' : Pieces old cs pieces') :
    pieces = pieces' := by
  induction h generalizing pieces' with
  | last hnone =>
    cases h' with
    | last => rfl
    | next _ hfirst => exact absurd hfirst.1 (hnone _)
  | next hcs hfirst _ ih =>
    cases h' with
    | last hnone => exact absurd hfirst.1 (hnone _)
    | next hcs' hfirst' hrest' =>
      obtain ⟨rfl, hafter⟩ := List.append_inj (hcs.symm.trans hcs') (hfirst.unique hfirst')
      obtain rfl := List.append_cancel_left hafter
      rw [ih hrest']

theorem Pieces.ne_nil (h : Pieces old cs pieces) : pieces ≠ [] := by
  cases h <;> exact List.cons_ne_nil _ _

/-- A text is its pieces with the occurrences between them. -/
theorem Pieces.intercalate_eq (h : Pieces old cs pieces) : old.intercalate pieces = cs := by
  induction h with
  | last => exact List.intercalate_singleton
  | next hcs _ hrest ih =>
    rw [List.intercalate_cons_of_ne_nil hrest.ne_nil, ih, hcs, List.append_assoc]

/-! ## Replacing all occurrences -/

theorem startsWith_append (old rest : List Char) : startsWith old (old ++ rest) = true :=
  List.isPrefixOf_iff_prefix.mpr (List.prefix_append old rest)

/-- No occurrence begins within a piece if none begins with its first character and none within
those after it. -/
theorem absent_cons : (∀ n < (c :: piece).length, ¬ OccursAt old (c :: (piece ++ rest)) n) ↔
    ¬ startsWith old (c :: (piece ++ rest)) = true ∧
      ∀ n < piece.length, ¬ OccursAt old (piece ++ rest) n := by
  rw [List.length_cons, Nat.forall_lt_succ_left, occursAt_zero]
  simp only [occursAt_succ]

/-- Before the first occurrence there is none. -/
theorem absent_of_isLeast (h : IsLeast {n | OccursAt old cs n} piece.length) :
    ∀ n < piece.length, ¬ OccursAt old cs n :=
  fun _ hn hoccurs => absurd (h.2 hoccurs) (Nat.not_le.mpr hn)

/-- What lies within an occurrence is passed over. -/
theorem replaceAll_skip (old new taken rest : List Char) :
    replaceAll old new taken.length (taken ++ rest) = replaceAll old new 0 rest := by
  induction taken with
  | nil => rfl
  | cons c taken ih => exact ih

theorem replaceAll_occurrence (hold : old ≠ []) (new rest : List Char) :
    replaceAll old new 0 (old ++ rest) = new ++ replaceAll old new 0 rest := by
  obtain ⟨c, taken, rfl⟩ := List.exists_cons_of_ne_nil hold
  have hstarts := startsWith_append (c :: taken) rest
  rw [List.cons_append] at hstarts ⊢
  rw [replaceAll]
  simp only [hstarts, if_true]
  exact congrArg (new ++ ·) (replaceAll_skip _ _ taken rest)

/-- What comes before the first occurrence stays. -/
theorem replaceAll_append (h : ∀ n < piece.length, ¬ OccursAt old (piece ++ rest) n) :
    replaceAll old new 0 (piece ++ rest) = piece ++ replaceAll old new 0 rest := by
  induction piece with
  | nil => rfl
  | cons c piece ih =>
    obtain ⟨hstarts, hlater⟩ := absent_cons.mp h
    rw [List.cons_append, replaceAll]
    simp only [if_neg hstarts, ih hlater]
    rfl

theorem replaceAll_of_absent (h : ∀ n, ¬ OccursAt old cs n) : replaceAll old new 0 cs = cs := by
  have hstays : replaceAll old new 0 (cs ++ []) = cs ++ replaceAll old new 0 [] :=
    replaceAll_append fun n _ => by rw [List.append_nil]; exact h n
  simpa [replaceAll] using hstays

/-- Where every occurrence is replaced, the pieces are joined by what comes in its place. -/
theorem Pieces.replaceAll_eq (h : Pieces old cs pieces) (hold : old ≠ []) :
    replaceAll old new 0 cs = new.intercalate pieces := by
  induction h with
  | last hnone => rw [replaceAll_of_absent hnone, List.intercalate_singleton]
  | next hcs hfirst hrest ih =>
    subst hcs
    rw [replaceAll_append (absent_of_isLeast hfirst), replaceAll_occurrence hold, ih,
      List.intercalate_cons_of_ne_nil hrest.ne_nil, List.append_assoc]

/-! ## Replacing one occurrence -/

theorem replaceNth_skip (old new taken rest : List Char) (earlier : ℕ) :
    replaceNth old new earlier taken.length (taken ++ rest) =
      taken ++ replaceNth old new earlier 0 rest := by
  induction taken with
  | nil => rfl
  | cons c taken ih => exact congrArg (c :: ·) ih

theorem replaceNth_occurrence_zero (hold : old ≠ []) (new rest : List Char) :
    replaceNth old new 0 0 (old ++ rest) = new ++ rest := by
  obtain ⟨c, taken, rfl⟩ := List.exists_cons_of_ne_nil hold
  have hstarts := startsWith_append (c :: taken) rest
  rw [List.cons_append] at hstarts ⊢
  rw [replaceNth, if_pos hstarts]
  exact congrArg (new ++ ·) List.drop_left

theorem replaceNth_occurrence_succ (hold : old ≠ []) (new rest : List Char) (earlier : ℕ) :
    replaceNth old new (earlier + 1) 0 (old ++ rest) =
      old ++ replaceNth old new earlier 0 rest := by
  obtain ⟨c, taken, rfl⟩ := List.exists_cons_of_ne_nil hold
  have hstarts := startsWith_append (c :: taken) rest
  rw [List.cons_append] at hstarts ⊢
  rw [replaceNth, if_pos hstarts]
  exact congrArg (c :: ·) (replaceNth_skip _ _ taken rest earlier)

theorem replaceNth_append (h : ∀ n < piece.length, ¬ OccursAt old (piece ++ rest) n) :
    replaceNth old new earlier 0 (piece ++ rest) =
      piece ++ replaceNth old new earlier 0 rest := by
  induction piece with
  | nil => rfl
  | cons c piece ih =>
    obtain ⟨hstarts, hlater⟩ := absent_cons.mp h
    simp only [List.cons_append, replaceNth, if_neg hstarts, ih hlater]

theorem replaceNth_of_absent (h : ∀ n, ¬ OccursAt old cs n) :
    replaceNth old new earlier 0 cs = cs := by
  have hstays : replaceNth old new earlier 0 (cs ++ []) = cs ++ replaceNth old new earlier 0 [] :=
    replaceNth_append fun n _ => by rw [List.append_nil]; exact h n
  simpa [replaceNth] using hstays

/-- Where the occurrence after some earlier ones is replaced, the pieces before it and those after
it are joined by the occurrences, and these by what comes in its place. -/
theorem Pieces.replaceNth_eq (h : Pieces old cs pieces) (hold : old ≠ []) (earlier : ℕ) :
    replaceNth old new earlier 0 cs =
      if earlier + 1 < pieces.length then
        old.intercalate (pieces.take (earlier + 1)) ++ new ++
          old.intercalate (pieces.drop (earlier + 1))
      else cs := by
  induction h generalizing earlier with
  | last hnone => exact replaceNth_of_absent hnone
  | @next cs piece rest pieces hcs hfirst hrest ih =>
    subst hcs
    have hpos := List.length_pos_iff.mpr hrest.ne_nil
    rw [replaceNth_append (absent_of_isLeast hfirst), List.length_cons]
    -- the occurrence after this piece is the one that is meant, or one of those before it
    cases earlier with
    | zero =>
      rw [replaceNth_occurrence_zero hold, if_pos (by omega), List.take_succ_cons, List.take_zero,
        List.intercalate_singleton, List.drop_succ_cons, List.drop_zero, hrest.intercalate_eq,
        List.append_assoc]
    | succ earlier =>
      have htake : pieces.take (earlier + 1) ≠ [] := by
        rw [Ne, List.take_eq_nil_iff]
        simpa using hrest.ne_nil
      rw [replaceNth_occurrence_succ hold, ih]
      by_cases hlt : earlier + 1 < pieces.length
      · rw [if_pos hlt, if_pos (by omega), List.take_succ_cons, List.drop_succ_cons,
          List.intercalate_cons_of_ne_nil htake]
        simp only [List.append_assoc]
      · rw [if_neg hlt, if_neg (by omega)]

end ComputedFields.Text
