import ComputedFields.Formula.Lexer
import ComputedFields.Text.LetterCase

/-!
# Upper case of words

Upper case is stable: in upper case a text stays as it is. The upper case of a word need not be a
word again, since some letters become a letter with marks after it; but all its characters are
letters of words or lie beyond ASCII and are no white space.
-/

namespace ComputedFields.Text

/-! ## Ranges -/

theorem exists_of_inRanges {ranges : List CodeRange} {n : Nat} (h : inRanges ranges n = true) :
    ∃ r ∈ ranges, r.1 ≤ n ∧ n ≤ r.2 := by
  induction ranges with
  | nil => cases h
  | cons r rest ih =>
    obtain ⟨low, high⟩ := r
    rw [inRanges] at h
    split at h
    · cases h
    · rename_i hlow
      rcases Bool.or_eq_true_iff.mp h with h | h
      · exact ⟨(low, high), by simp, Nat.not_lt.mp hlow, by simpa using h⟩
      · obtain ⟨r, hr, hn⟩ := ih h
        exact ⟨r, List.mem_cons_of_mem _ hr, hn⟩

theorem not_alphabetic_of_lt {n : Nat} (h : n < 65) : inRanges alphabeticRanges n = false := by
  rw [alphabeticRanges, inRanges, if_pos h]

/-- White space is neither a letter nor a number. -/
theorem blankRanges_plain : ∀ r ∈ blankRanges, ∀ k < r.2 + 1 - r.1,
    inRanges alphabeticRanges (r.1 + k) = false ∧ inRanges numericRanges (r.1 + k) = false ∧
      r.1 + k ≠ 95 := by
  decide +kernel

theorem isBlank_of_continuesWord {c : Char} (h : Token.continuesWord c = true) :
    isBlank c = false := by
  cases hblank : isBlank c with
  | false => rfl
  | true =>
    obtain ⟨r, hr, hlow, hhigh⟩ := exists_of_inRanges hblank
    have hplain := blankRanges_plain r hr (c.toNat - r.1) (by omega)
    rw [Nat.add_sub_cancel' hlow] at hplain
    obtain ⟨halpha, hnum, hne⟩ := hplain
    have hunder : c ≠ '_' := by
      rintro rfl
      exact hne rfl
    simp [Token.continuesWord, isAlphanumeric, isAlphabetic, halpha, hnum, hunder] at h

theorem continuesWord_of_startsWord {c : Char} (h : Token.startsWord c = true) :
    Token.continuesWord c = true := by
  simp only [Token.startsWord, Token.continuesWord, isAlphanumeric, Bool.or_eq_true] at h ⊢
  exact h.imp_left .inl

/-! ## The tables of upper case -/

/-- What runs do to a code point: nothing, or what one of them does. -/
theorem caseShift_cases (runs : List CaseRun) (n : Nat) : caseShift runs n = n ∨
    ∃ run ∈ runs, run.low ≤ n ∧ n ≤ run.high ∧ (n - run.low) % run.step = 0 ∧
      caseShift runs n = (n + run.offset).toNat := by
  induction runs with
  | nil => exact .inl rfl
  | cons run rest ih =>
    rw [caseShift]
    split
    · exact .inl rfl
    · rename_i hlow
      split
      · rename_i hhigh
        simp only [Bool.and_eq_true, decide_eq_true_eq, beq_iff_eq] at hhigh
        exact .inr ⟨run, by simp, Nat.not_lt.mp hlow, hhigh.1, hhigh.2, rfl⟩
      · rcases ih with ih | ⟨run', hmem, hrun⟩
        · exact .inl ih
        · exact .inr ⟨run', List.mem_cons_of_mem _ hmem, hrun⟩

theorem mem_of_lookup {n : Nat} {sequence : List Nat} {entries : List (Nat × List Nat)}
    (h : entries.lookup n = some sequence) : (n, sequence) ∈ entries := by
  obtain ⟨before, after, rfl, -⟩ := List.lookup_eq_some_iff.mp h
  simp

/-- Where the upper case of a character comes from: the ASCII letters, a sequence, the character
itself, or a run. -/
theorem upperChar_cases (c : Char) :
    (c.toNat < 128 ∧ upperChar c = [c.toUpper]) ∨
    (128 ≤ c.toNat ∧ ∃ sequence, (c.toNat, sequence) ∈ upperSequences ∧
      upperChar c = sequence.map Char.ofNat) ∨
    (128 ≤ c.toNat ∧ upperChar c = [c]) ∨
    ∃ run ∈ upperRuns, ∃ k, k < run.high + 1 - run.low ∧ k % run.step = 0 ∧
      upperChar c = [Char.ofNat ((run.low + k : Nat) + run.offset).toNat] := by
  rw [upperChar]
  split
  · rename_i hascii
    exact .inl ⟨hascii, rfl⟩
  · rename_i hascii
    have hge := Nat.not_lt.mp hascii
    cases hlookup : upperSequences.lookup c.toNat with
    | some sequence => exact .inr (.inl ⟨hge, sequence, mem_of_lookup hlookup, rfl⟩)
    | none =>
      refine .inr (.inr ?_)
      rcases caseShift_cases upperRuns c.toNat with heq | ⟨run, hmem, hlow, hhigh, hstep, heq⟩
      · left
        simp only [heq, Char.ofNat_toNat]
        exact ⟨hge, trivial⟩
      · refine .inr ⟨run, hmem, c.toNat - run.low, by omega, hstep, ?_⟩
        simp only [heq, Nat.add_sub_cancel' hlow]

theorem upperChar_ascii : ∀ n < 128,
    upperChar (Char.ofNat n).toUpper = [(Char.ofNat n).toUpper] ∧
      (Token.continuesWord (Char.ofNat n) = true →
        Token.continuesWord (Char.ofNat n).toUpper = true ∧
          (Token.startsWord (Char.ofNat n) = true →
            Token.startsWord (Char.ofNat n).toUpper = true)) := by
  decide +kernel

theorem upperSequences_lead_well : ∀ entry ∈ upperSequences, ∀ m ∈ entry.2,
    upperChar (Char.ofNat m) = [Char.ofNat m] ∧
      ((127 < (Char.ofNat m).toNat ∧ isBlank (Char.ofNat m) = false) ∨
        (Char.ofNat m).toNat < 128 ∧ Token.startsWord (Char.ofNat m) = true) := by
  decide +kernel

/-! ## Where the runs lead -/

namespace CaseRun

/-- The first code point that a run leads to. -/
def first (run : CaseRun) : Nat := ((run.low : Nat) + run.offset).toNat

/-- The last code point that a run leads to. -/
def last (run : CaseRun) : Nat := ((run.high : Nat) + run.offset).toNat

/-- The distance between the code points that a run leads to; any will do for a single one. -/
def stride (run : CaseRun) : Nat := if run.low = run.high then 2 else run.step

end CaseRun

/-- Whether no run starts from the code points from `first` to `last`, by twos if the stride is
two. -/
def avoidsRuns (first last stride : Nat) : List CaseRun → Bool
  | [] => true
  | run :: rest => last.blt run.low ||
    ((run.high.blt first || (stride == 2 && run.step == 2 && (first + run.low) % 2 == 1)) &&
      avoidsRuns first last stride rest)

theorem caseShift_of_avoidsRuns {first last stride m : Nat} {runs : List CaseRun}
    (h : avoidsRuns first last stride runs = true) (hfirst : first ≤ m) (hlast : m ≤ last)
    (hstride : stride = 2 → (m - first) % 2 = 0) : caseShift runs m = m := by
  induction runs with
  | nil => rfl
  | cons run rest ih =>
    rw [caseShift]
    split
    · rfl
    · rename_i hlow
      rw [avoidsRuns] at h
      simp only [Bool.or_eq_true, Bool.and_eq_true, Nat.blt_eq, beq_iff_eq] at h
      rcases h with h | ⟨hout, hrest⟩
      · omega
      · rw [if_neg, ih hrest]
        simp only [Bool.and_eq_true, decide_eq_true_eq, beq_iff_eq, not_and]
        intro hhigh
        rcases hout with hout | ⟨⟨htwo, hstep⟩, hodd⟩
        · omega
        · have := hstride htwo
          rw [hstep]
          omega

/-- Whether no sequence starts from the code points from `first` to `last`. -/
def avoidsSequences (first last : Nat) : Bool :=
  upperSequences.all fun entry => last.blt entry.1 || entry.1.blt first

/-- Whether a run leads beyond ASCII and not to white space, or to one ASCII letter. -/
def CaseRun.leadsWell (run : CaseRun) : Bool :=
  (Nat.blt 127 run.first && blankRanges.all fun r => run.last.blt r.1 || r.2.blt run.first) ||
    (run.low == run.high && Token.startsWord (Char.ofNat run.first) && run.first.blt 128 &&
      (Char.ofNat run.first).toUpper == Char.ofNat run.first)

theorem upperRuns_lead_well : ∀ run ∈ upperRuns, 0 ≤ (run.low : Int) + run.offset ∧
    (run.last < 0xd800 ∨ 0xdfff < run.first ∧ run.last < 0x110000) ∧ run.leadsWell = true ∧
      avoidsSequences run.first run.last = true ∧
      avoidsRuns run.first run.last run.stride upperRuns = true := by
  decide +kernel

section

variable {run : CaseRun} {m : Nat}

theorem toNat_ofNat (hvalid : m < 0xd800 ∨ 0xdfff < m ∧ m < 0x110000) :
    (Char.ofNat m).toNat = m := by
  rw [Char.ofNat, dif_pos hvalid]
  rfl

/-- No sequence starts from where a run leads. -/
theorem lookup_of_run (hmem : run ∈ upperRuns) (hfirst : run.first ≤ m) (hlast : m ≤ run.last) :
    upperSequences.lookup m = none := by
  obtain ⟨-, -, -, hsequences, -⟩ := upperRuns_lead_well run hmem
  refine List.lookup_eq_none_iff.mpr fun entry hentry => bne_iff_ne.mpr fun heq => ?_
  have havoid := List.all_eq_true.mp hsequences entry hentry
  simp only [Bool.or_eq_true, Nat.blt_eq] at havoid
  omega

/-- No run starts from where a run leads. -/
theorem caseShift_of_run (hmem : run ∈ upperRuns) (hfirst : run.first ≤ m) (hlast : m ≤ run.last)
    (hspan : run.low = run.high → m = run.first) (hstep : (m - run.first) % run.step = 0) :
    caseShift upperRuns m = m := by
  obtain ⟨-, -, -, -, havoid⟩ := upperRuns_lead_well run hmem
  refine caseShift_of_avoidsRuns havoid hfirst hlast fun hstride => ?_
  -- a single code point is the first one; by twos, those in between are passed over
  rw [CaseRun.stride] at hstride
  split at hstride
  · rename_i hsingle
    have hm := hspan hsingle
    omega
  · rw [hstride] at hstep
    exact hstep

/-- What is known of a code point that a run leads to. -/
theorem run_facts (hmem : run ∈ upperRuns) {k : Nat} (hk : k < run.high + 1 - run.low)
    (hstep : k % run.step = 0) :
    ∃ m, m = ((run.low + k : Nat) + run.offset).toNat ∧ (Char.ofNat m).toNat = m ∧
      upperChar (Char.ofNat m) = [Char.ofNat m] ∧
      ((127 < m ∧ inRanges blankRanges m = false) ∨
        m < 128 ∧ Token.startsWord (Char.ofNat m) = true) := by
  obtain ⟨hnonneg, hvalid, hwell, -⟩ := upperRuns_lead_well run hmem
  refine ⟨_, rfl, ?_⟩
  generalize hm : ((run.low + k : Nat) + run.offset).toNat = m
  have hfirst : run.first + k = m := by
    rw [CaseRun.first]
    omega
  have hlast : m ≤ run.last := by
    rw [CaseRun.last]
    omega
  have htoNat : (Char.ofNat m).toNat = m := toNat_ofNat (by omega)
  refine ⟨htoNat, ?_⟩
  rw [CaseRun.leadsWell, Bool.or_eq_true] at hwell
  rcases hwell with hwell | hwell
  · simp only [Bool.and_eq_true, Nat.blt_eq, List.all_eq_true, Bool.or_eq_true] at hwell
    obtain ⟨hhigh, hblank⟩ := hwell
    have hle : run.first ≤ m := by omega
    have hoff : m - run.first = k := by omega
    have hshift : caseShift upperRuns m = m :=
      caseShift_of_run hmem hle hlast (by omega) (by rwa [hoff])
    refine ⟨?_, .inl ⟨by omega, ?_⟩⟩
    · rw [upperChar, htoNat, if_neg (by omega), lookup_of_run hmem hle hlast]
      simp only [hshift]
    · cases hin : inRanges blankRanges m with
      | false => rfl
      | true =>
        obtain ⟨r, hr, hrlow, hrhigh⟩ := exists_of_inRanges hin
        have hout := hblank r hr
        omega
  · simp only [Bool.and_eq_true, beq_iff_eq, Nat.blt_eq] at hwell
    obtain ⟨⟨⟨hsingle, hstart⟩, hlt⟩, hupper⟩ := hwell
    obtain rfl : run.first = m := by omega
    refine ⟨?_, .inr ⟨hlt, hstart⟩⟩
    rw [upperChar, htoNat, if_pos hlt, hupper]

end

/-! ## Characters and texts -/

/-- A character in upper case stays as it is. -/
theorem upperChar_stable {c x : Char} (h : x ∈ upperChar c) : upperChar x = [x] := by
  rcases upperChar_cases c with ⟨hascii, heq⟩ | ⟨-, sequence, hmem, heq⟩ | ⟨-, heq⟩ |
    ⟨run, hmem, k, hk, hstep, heq⟩
  · rw [heq, List.mem_singleton] at h
    subst h
    simpa [Char.ofNat_toNat] using (upperChar_ascii c.toNat hascii).1
  · rw [heq] at h
    obtain ⟨m, hm, rfl⟩ := List.mem_map.mp h
    exact (upperSequences_lead_well _ hmem m hm).1
  · rw [heq, List.mem_singleton] at h
    subst h
    exact heq
  · rw [heq, List.mem_singleton] at h
    obtain ⟨m, hm, -, hstable, -⟩ := run_facts hmem hk hstep
    rw [h, ← hm]
    exact hstable

/-- A text in upper case stays as it is. -/
theorem toUpper_toUpper (text : String) : toUpper (toUpper text) = toUpper text := by
  have hstable : ∀ cs : List Char, (∀ x ∈ cs, upperChar x = [x]) → cs.flatMap upperChar = cs := by
    intro cs hcs
    induction cs with
    | nil => rfl
    | cons x cs ih =>
      rw [List.flatMap_cons, hcs x (by simp), ih fun y hy => hcs y (List.mem_cons_of_mem _ hy)]
      rfl
  rw [toUpper, toUpper, String.toList_ofList]
  congr 1
  refine hstable _ fun x hx => ?_
  obtain ⟨c, -, hc⟩ := List.mem_flatMap.mp hx
  exact upperChar_stable hc

/-- The characters of the upper case of a word are beyond ASCII and no white space, or word
characters themselves. -/
theorem upperChar_of_word {c x : Char} (hc : Token.continuesWord c = true)
    (hx : x ∈ upperChar c) :
    (127 < x.toNat ∧ isBlank x = false) ∨
      Token.continuesWord x = true ∧ (Token.startsWord c = true → Token.startsWord x = true) := by
  have hstart : Token.startsWord x = true →
      Token.continuesWord x = true ∧ (Token.startsWord c = true → Token.startsWord x = true) :=
    fun h => ⟨continuesWord_of_startsWord h, fun _ => h⟩
  rcases upperChar_cases c with ⟨hascii, heq⟩ | ⟨-, sequence, hmem, heq⟩ | ⟨-, heq⟩ |
    ⟨run, hmem, k, hk, hstep, heq⟩
  · rw [heq, List.mem_singleton] at hx
    have hword := (upperChar_ascii c.toNat hascii).2
    rw [Char.ofNat_toNat, ← hx] at hword
    exact .inr (hword hc)
  · rw [heq] at hx
    obtain ⟨m, hm, rfl⟩ := List.mem_map.mp hx
    exact (upperSequences_lead_well _ hmem m hm).2.imp_right fun h => hstart h.2
  · rw [heq, List.mem_singleton] at hx
    rw [hx]
    exact .inr ⟨hc, id⟩
  · rw [heq, List.mem_singleton] at hx
    obtain ⟨m, hm, htoNat, -, hlead⟩ := run_facts hmem hk hstep
    rw [← hm] at hx
    subst hx
    rw [isBlank, htoNat]
    exact hlead.imp_right fun h => hstart h.2

theorem upperChar_ne_nil (c : Char) : upperChar c ≠ [] := by
  have hne : ∀ entry ∈ upperSequences, entry.2 ≠ [] := by decide
  rcases upperChar_cases c with ⟨-, heq⟩ | ⟨-, sequence, hmem, heq⟩ | ⟨-, heq⟩ |
    ⟨run, hmem, k, -, -, heq⟩
  · simp [heq]
  · simpa [heq] using hne _ hmem
  · simp [heq]
  · simp [heq]

end ComputedFields.Text
