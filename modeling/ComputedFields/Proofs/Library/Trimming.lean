import ComputedFields.Proofs.Library.TextCalls
import ComputedFields.Proofs.Text.Blank

/-!
# Trimming

Trimming a text joins its words by single spaces. The words are the longest runs of characters that
are not white space, so trimming keeps these characters and their order, and changes a text that has
been trimmed no more.
-/

namespace ComputedFields

namespace Text

variable {b c : Char} {w cs bs rest : List Char} {ws : List (List Char)} {inRun : Bool}

/-! ## Words -/

/-- The words of a text: what stands between its white space. -/
def words (cs : List Char) : List (List Char) := (cs.splitOnP isBlank).filter fun w => !w.isEmpty

/-- At least one character, and no white space. -/
def IsWord (w : List Char) : Prop := w ≠ [] ∧ ∀ c ∈ w, isBlank c = false

theorem words_nil : words [] = [] := by simp [words, List.splitOnP_nil]

/-- White space ends a word. -/
theorem words_append_cons (hb : isBlank b = true) (before after : List Char) :
    words (before ++ b :: after) = words before ++ words after := by
  rw [words, List.splitOnP_append_cons before after hb, List.filter_append]
  rfl

theorem words_cons (hb : isBlank b = true) (cs : List Char) : words (b :: cs) = words cs := by
  have happend := words_append_cons hb [] cs
  rwa [words_nil] at happend

theorem IsWord.words_eq (h : IsWord w) : words w = [w] := by
  rw [words, List.splitOnP_eq_singleton h.2]
  simp [h.1]

theorem words_blanks_append (hbs : ∀ b ∈ bs, isBlank b = true) (cs : List Char) :
    words (bs ++ cs) = words cs := by
  induction bs with
  | nil => rfl
  | cons b bs ih =>
    obtain ⟨hb, hbs⟩ := List.forall_mem_cons.mp hbs
    rw [List.cons_append, words_cons hb, ih hbs]

theorem words_append_blanks (hbs : ∀ b ∈ bs, isBlank b = true) (cs : List Char) :
    words (cs ++ bs) = words cs := by
  cases bs with
  | nil => rw [List.append_nil]
  | cons b bs =>
    obtain ⟨hb, hbs⟩ := List.forall_mem_cons.mp hbs
    have hnone : words bs = [] := by
      have hall := words_blanks_append hbs []
      rwa [List.append_nil, words_nil] at hall
    rw [words_append_cons hb, hnone, List.append_nil]

/-- White space around a text is in none of its words. -/
theorem words_trimChars (cs : List Char) : words (trimChars cs) = words cs := by
  have hstart : words (trimStart cs) = words cs := by
    conv_rhs => rw [← List.takeWhile_append_dropWhile (p := isBlank) (l := cs)]
    exact (words_blanks_append (fun b hb => List.mem_takeWhile_imp hb) _).symm
  have hend : words (trimEnd (trimStart cs)) = words (trimStart cs) := by
    conv_rhs => rw [← List.rdropWhile_append_rtakeWhile (p := isBlank) (l := trimStart cs)]
    exact (words_append_blanks (fun b hb => List.mem_rtakeWhile_imp hb) _).symm
  rw [trimChars, hend, hstart]

/-- A text is empty, begins with white space, is a word, or begins with a word that white space
ends. -/
theorem runs_induction {P : List Char → Prop} (nil : P [])
    (blank : ∀ b cs, isBlank b = true → P cs → P (b :: cs)) (last : ∀ w, IsWord w → P w)
    (word : ∀ w b cs, IsWord w → isBlank b = true → P cs → P (w ++ b :: cs)) (cs : List Char) :
    P cs := by
  induction hn : cs.length using Nat.strong_induction_on generalizing cs with
  | _ n ih =>
    subst hn
    cases cs with
    | nil => exact nil
    | cons c cs =>
      cases hc : isBlank c with
      | true => exact blank c cs hc (ih cs.length (by simp) cs rfl)
      | false =>
        have hsplit := List.takeWhile_append_dropWhile (p := (!isBlank ·)) (l := cs)
        have hword : IsWord (c :: cs.takeWhile (!isBlank ·)) := by
          refine ⟨by simp, List.forall_mem_cons.mpr ⟨hc, fun x hx => ?_⟩⟩
          simpa using List.mem_takeWhile_imp hx
        cases hrest : cs.dropWhile (!isBlank ·) with
        | nil =>
          rw [hrest, List.append_nil] at hsplit
          rw [hsplit] at hword
          exact last _ hword
        | cons b rest =>
          have hb : isBlank b = true := by
            have hhead := List.head?_dropWhile_not (!isBlank ·) cs
            rw [hrest] at hhead
            simpa using hhead
          rw [hrest] at hsplit
          have hlength := congrArg List.length hsplit
          rw [List.length_append, List.length_cons] at hlength
          rw [← hsplit, ← List.cons_append]
          exact word _ b rest hword hb (ih rest.length (by simp; omega) rest rfl)

theorem isWord_of_mem_words (h : w ∈ words cs) : IsWord w := by
  induction cs using runs_induction with
  | nil =>
    rw [words_nil] at h
    cases h
  | blank b cs hb ih => exact ih (words_cons hb cs ▸ h)
  | last v hv =>
    rw [hv.words_eq, List.mem_singleton] at h
    exact h ▸ hv
  | word v b cs hv hb ih =>
    rw [words_append_cons hb, hv.words_eq] at h
    rcases List.mem_cons.mp h with rfl | h
    · exact hv
    · exact ih h

theorem IsWord.filter_eq (h : IsWord w) : w.filter (!isBlank ·) = w :=
  List.filter_eq_self.mpr fun c hc => by simp [h.2 c hc]

/-- The words hold all characters that are not white space, in order. -/
theorem flatten_words (cs : List Char) : (words cs).flatten = cs.filter (!isBlank ·) := by
  induction cs using runs_induction with
  | nil => rw [words_nil]; rfl
  | blank b cs hb ih => rw [words_cons hb, ih, List.filter_cons_of_neg (by simp [hb])]
  | last w hw => rw [hw.words_eq, hw.filter_eq, List.flatten_singleton]
  | word w b cs hw hb ih =>
    rw [words_append_cons hb, hw.words_eq, List.singleton_append, List.flatten_cons, ih,
      List.filter_append, hw.filter_eq, List.filter_cons_of_neg (by simp [hb])]

/-- A text that ends in a word has one. -/
theorem words_ne_nil (hlast : ∀ c ∈ cs.getLast?, isBlank c = false) (hne : cs ≠ []) :
    words cs ≠ [] := by
  intro hnone
  have hflatten := flatten_words cs
  rw [hnone] at hflatten
  have hall := List.filter_eq_nil_iff.mp hflatten.symm (cs.getLast hne) (List.getLast_mem hne)
  have hend := hlast _ (List.getLast?_eq_getLast_of_ne_nil hne)
  simp [hend] at hall

/-! ## Joining words -/

theorem collapse_word_append (h : IsWord w) :
    collapse inRun (w ++ rest) = w ++ collapse false rest := by
  obtain ⟨hne, hword⟩ := h
  induction w generalizing inRun with
  | nil => exact absurd rfl hne
  | cons c cs ih =>
    obtain ⟨hc, hcs⟩ := List.forall_mem_cons.mp hword
    rw [List.cons_append, collapse, hc, if_neg Bool.false_ne_true, List.cons_append]
    cases cs with
    | nil => rfl
    | cons c' cs' => rw [ih (by simp) hcs]

/-- Within a run of white space the words that follow are joined, up to the end of the last one. -/
theorem collapse_true (hlast : ∀ c ∈ cs.getLast?, isBlank c = false) :
    collapse true cs = [' '].intercalate (words cs) := by
  induction cs using runs_induction with
  | nil => rw [words_nil]; rfl
  | blank b cs hb ih =>
    rw [words_cons hb, collapse, if_pos hb, if_pos rfl]
    refine ih fun c hc => hlast c ?_
    rw [List.getLast?_cons, Option.mem_def.mp hc]
    rfl
  | last w hw =>
    have hcollapse : collapse true (w ++ []) = w ++ collapse false [] := collapse_word_append hw
    rw [List.append_nil] at hcollapse
    rw [hcollapse, hw.words_eq, List.intercalate_singleton]
    exact List.append_nil w
  | word w b cs hw hb ih =>
    -- the text does not end here, so there is another word to be joined
    have hne : cs ≠ [] := by
      rintro rfl
      have hend := hlast b (by simp)
      rw [hb] at hend
      cases hend
    have hlast' : ∀ c ∈ cs.getLast?, isBlank c = false := by
      intro c hc
      refine hlast c ?_
      rw [List.getLast?_append, List.getLast?_cons, Option.mem_def.mp hc]
      rfl
    rw [collapse_word_append hw, words_append_cons hb, hw.words_eq, List.singleton_append,
      List.intercalate_cons_of_ne_nil (words_ne_nil hlast' hne), ← ih hlast', collapse, if_pos hb,
      if_neg Bool.false_ne_true, List.append_assoc]
    rfl

theorem collapse_trimChars (cs : List Char) :
    collapse false (trimChars cs) = [' '].intercalate (words cs) := by
  have hsame : collapse false (trimChars cs) = collapse true (trimChars cs) := by
    cases htrim : trimChars cs with
    | nil => rfl
    | cons c rest =>
      have hc := head?_trimChars cs c (by rw [htrim]; rfl)
      rw [collapse, collapse, hc, if_neg Bool.false_ne_true, if_neg Bool.false_ne_true]
  rw [hsame, collapse_true (getLast?_trimChars cs), words_trimChars]

/-! ## Tidy texts -/

/-- A text in which all white space is single spaces between other characters. -/
structure Tidy (cs : List Char) : Prop where
  head : ∀ c ∈ cs.head?, isBlank c = false
  last : ∀ c ∈ cs.getLast?, isBlank c = false
  space : ∀ c ∈ cs, isBlank c = true → c = ' '
  single : cs.IsChain fun a b => isBlank a = true → isBlank b = false

theorem tidy_nil : Tidy [] := ⟨by simp, by simp, by simp, .nil⟩

theorem IsWord.tidy (h : IsWord w) : Tidy w where
  head := fun c hc => h.2 c (List.mem_of_head? hc)
  last := fun c hc => h.2 c (List.mem_of_getLast? hc)
  space := by
    intro c hc hblank
    rw [h.2 c hc] at hblank
    cases hblank
  single := by
    have hall : w.Pairwise fun a b => isBlank a = true → isBlank b = false :=
      List.pairwise_of_forall_mem_list fun _ _ c hc _ => h.2 c hc
    exact hall.isChain

/-- A word, a space and a tidy text are a tidy text. -/
theorem IsWord.tidy_append (h : IsWord w) (hcs : Tidy cs) (hne : cs ≠ []) :
    Tidy (w ++ ' ' :: cs) where
  head := by
    intro c hc
    rw [List.head?_append_of_ne_nil _ h.1] at hc
    exact h.tidy.head c hc
  last := by
    intro c hc
    rw [List.getLast?_append_of_ne_nil _ (by simp), List.getLast?_cons_of_ne_nil hne] at hc
    exact hcs.last c hc
  space := by
    intro c hc hblank
    rcases List.mem_append.mp hc with hc | hc
    · exact h.tidy.space c hc hblank
    · rcases List.mem_cons.mp hc with rfl | hc
      · rfl
      · exact hcs.space c hc hblank
  single := by
    have hafter : ∀ c ∈ cs.head?, isBlank ' ' = true → isBlank c = false :=
      fun c hc _ => hcs.head c hc
    refine List.isChain_append.mpr
      ⟨h.tidy.single, List.isChain_cons.mpr ⟨hafter, hcs.single⟩, fun c hc _ _ hblank => ?_⟩
    rw [h.tidy.last c hc] at hblank
    cases hblank

theorem intercalate_ne_nil (hws : ∀ w ∈ ws, IsWord w) (hne : ws ≠ []) :
    [' '].intercalate ws ≠ [] := by
  obtain ⟨w, ws, rfl⟩ := List.exists_cons_of_ne_nil hne
  have hw := (hws w (by simp)).1
  cases ws with
  | nil => rwa [List.intercalate_singleton]
  | cons w' ws => simp [List.intercalate_cons_cons]

theorem tidy_intercalate (hws : ∀ w ∈ ws, IsWord w) : Tidy ([' '].intercalate ws) := by
  induction ws with
  | nil => exact tidy_nil
  | cons w ws ih =>
    obtain ⟨hw, hws⟩ := List.forall_mem_cons.mp hws
    cases ws with
    | nil =>
      rw [List.intercalate_singleton]
      exact hw.tidy
    | cons w' ws =>
      rw [List.intercalate_cons_cons, List.append_assoc]
      exact hw.tidy_append (ih hws) (intercalate_ne_nil hws (by simp))

/-- Words that have been joined are found again. -/
theorem words_intercalate (hws : ∀ w ∈ ws, IsWord w) : words ([' '].intercalate ws) = ws := by
  induction ws with
  | nil => exact words_nil
  | cons w ws ih =>
    obtain ⟨hw, hws⟩ := List.forall_mem_cons.mp hws
    cases ws with
    | nil => rw [List.intercalate_singleton, hw.words_eq]
    | cons w' ws =>
      rw [List.intercalate_cons_cons, List.append_assoc, List.singleton_append,
        words_append_cons rfl, hw.words_eq, ih hws, List.singleton_append]

end Text

/-! ## Calls -/

namespace Library

theorem toList_trimText (s : String) :
    (trimText s).toList = [' '].intercalate (Text.words s.toList) := by
  rw [trimText, String.toList_ofList, Text.collapse_trimChars]

theorem words_trimText (s : String) : Text.words (trimText s).toList = Text.words s.toList := by
  rw [toList_trimText, Text.words_intercalate fun _ => Text.isWord_of_mem_words]

theorem trimText_trimText (s : String) : trimText (trimText s) = trimText s := by
  rw [← String.toList_inj, toList_trimText, words_trimText, toList_trimText]

end Library

namespace Expr

variable {view : View Id} {now : Calendar.DateTime} {a : Expr} {s : String}

theorem eval_trim (ha : (a.eval view now).asText = .ok s) :
    (call "TRIM" [a]).eval view now = .text (Library.trimText s) := by
  rw [eval_call_of_errorWithin rfl rfl
    (by simpa using Value.errorWithin_of_asText ha (by decide))]
  show Value.ofResult ((a.eval view now).asText.map _) = _
  rw [ha]
  rfl

/-- Trimming gives the words of a text with single spaces between them. So the text that it gives is
tidy, has the same characters other than white space in the same order, and is left as it is when it
is trimmed again. -/
theorem trim_joins_words (ha : (a.eval view now).asText = .ok s) :
    ∃ t : String, (call "TRIM" [a]).eval view now = .text t ∧
      t.toList = [' '].intercalate (Text.words s.toList) ∧
      Text.Tidy t.toList ∧
      t.toList.filter (!Text.isBlank ·) = s.toList.filter (!Text.isBlank ·) ∧
      (call "TRIM" [call "TRIM" [a]]).eval view now = .text t := by
  have htrim := eval_trim ha
  refine ⟨Library.trimText s, htrim, Library.toList_trimText s, ?_, ?_, ?_⟩
  · rw [Library.toList_trimText]
    exact Text.tidy_intercalate fun _ => Text.isWord_of_mem_words
  · rw [← Text.flatten_words, Library.words_trimText, Text.flatten_words]
  · rw [eval_trim (asText_of_text htrim), Library.trimText_trimText]

/-- White space of three kinds around and between two words. -/
theorem trim_twoWords :
    Text.words "\u2003 Ada \t\u00a0Lovelace\n".toList = ["Ada".toList, "Lovelace".toList] ∧
      (call "TRIM" [literal (.text "\u2003 Ada \t\u00a0Lovelace\n")]).eval .blank
        Library.midsummer = .text "Ada Lovelace" := by
  have hwords : Text.words "\u2003 Ada \t\u00a0Lovelace\n".toList =
      ["Ada".toList, "Lovelace".toList] := by decide
  have hargument : ((literal (.text "\u2003 Ada \t\u00a0Lovelace\n")).eval .blank
      Library.midsummer).asText = .ok "\u2003 Ada \t\u00a0Lovelace\n" := asText_literal _
  obtain ⟨t, htrim, ht, -⟩ := trim_joins_words hargument
  rw [hwords] at ht
  have htext : t = "Ada Lovelace" := String.toList_inj.mp ht
  exact ⟨hwords, htrim.trans (congrArg Value.text htext)⟩

end Expr

end ComputedFields
