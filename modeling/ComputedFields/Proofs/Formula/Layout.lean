import ComputedFields.Proofs.Formula.Accepted

/-!
# Where tokens lie

Tokens and the white space before them give back the source that they were read from. Every token
is the piece of the source that starts at its offset, and a fault lies on a character behind the
last token that was read in full.
-/

namespace ComputedFields

namespace Token

variable {c : Char} {cs gap lexeme left : List Char} {kind : TokenKind}
  {extra ahead offset : Nat} {fault : LexFault}

/-! ## One token keeps to the source -/

theorem readUntil_within (close : Char) (escape? : Char → Option Char) (unterminated : LexFault)
    (ahead : Nat) (cs : List Char) :
    match readUntil close escape? unterminated ahead cs with
    | .ok (_, size) => size < ahead + cs.length
    | .error fault => fault.ahead = 0 ∨ fault.ahead < ahead + cs.length := by
  fun_induction readUntil close escape? unterminated ahead cs <;> grind

theorem digitRun_le (cs : List Char) : digitRun cs ≤ cs.length :=
  (List.takeWhile_sublist _).length_le

theorem fractionLength_le (cs : List Char) : fractionLength cs ≤ cs.length := by
  unfold fractionLength
  split
  · rename_i cs
    have hrun := digitRun_le cs
    rw [List.length_cons]
    split <;> omega
  · exact Nat.zero_le _

theorem exponentLength_le (cs : List Char) : exponentLength cs ≤ cs.length := by
  cases cs with
  | nil => exact Nat.le_refl _
  | cons mark cs =>
    have hrun (signs : Nat) := digitRun_le (cs.drop signs)
    grind [exponentLength]

theorem numberLength_le (cs : List Char) : (numberLength cs).1 ≤ cs.length := by
  have hwhole := digitRun_le cs
  have hfraction := fractionLength_le (cs.drop (digitRun cs))
  have hexponent := exponentLength_le
    (cs.drop (digitRun cs + fractionLength (cs.drop (digitRun cs))))
  rw [List.length_drop] at hfraction hexponent
  show digitRun cs + _ + _ ≤ _
  omega

/-- What one token takes, or how far in it a fault lies, is no more than there is. -/
def Within (cs : List Char) : Except FaultAt (TokenKind × Nat) → Prop
  | .ok (_, extra) => extra ≤ cs.length
  | .error fault => fault.ahead ≤ cs.length

theorem scanText_within (quote : Char) (cs : List Char) : Within cs (scanText quote cs) := by
  have hread := readUntil_within quote textEscape? .unterminatedText 1 cs
  grind [scanText, Within]

theorem scanField_within (cs : List Char) : Within cs (scanField cs) := by
  have hread := readUntil_within '\x7d' fieldEscape? .unterminatedField 1 cs
  grind [scanField, Within]

theorem scanNumber_within (c : Char) (cs : List Char) : Within cs (scanNumber (c :: cs)) := by
  have hlength := numberLength_le (c :: cs)
  rw [List.length_cons] at hlength
  rw [scanNumber]
  dsimp only
  split
  · exact Nat.sub_le_of_le_add hlength
  · exact Nat.zero_le _

theorem scanWord_within (c : Char) (cs : List Char) : (scanWord (c :: cs)).2 ≤ cs.length :=
  Nat.sub_le_of_le_add (List.takeWhile_sublist continuesWord).length_le

theorem scan_within (c : Char) (cs : List Char) : Within cs (scan c cs) := by
  -- one case for each kind of first character, in the order of the lexer
  have hhead (x : Char) (h : cs.head? = some x) : 1 ≤ cs.length := by
    obtain ⟨cs, rfl⟩ := List.head?_eq_some_iff.mp h
    exact Nat.le_add_left _ _
  rw [scan]
  split
  · exact Nat.zero_le _
  split
  · split
    · exact hhead _ ‹_›
    · exact Nat.zero_le _
  split
  · split
    · exact hhead _ ‹_›
    · split
      · exact hhead _ ‹_›
      · exact Nat.zero_le _
  split
  · split
    · exact hhead _ ‹_›
    · exact Nat.zero_le _
  split
  · exact scanText_within c cs
  split
  · exact scanField_within cs
  split
  · exact scanNumber_within c cs
  split
  · exact Nat.zero_le _
  split
  · exact scanWord_within c cs
  · exact Nat.zero_le _

/-! ## Pieces of a source -/

theorem bytes_eq (cs : List Char) : bytes cs = (String.ofList cs).utf8ByteSize := by
  induction cs with
  | nil => rfl
  | cons c cs ih => simp [bytes, ih]

theorem bytes_append (cs cs' : List Char) : bytes (cs ++ cs') = bytes cs + bytes cs' := by
  simp [bytes_eq]

theorem bytes_toList (s : String) : bytes s.toList = s.utf8ByteSize := by
  simp [bytes_eq]

theorem add_bytes_piece (offset : Nat) (gap lexeme cs : List Char) (c : Char) :
    offset + bytes (gap ++ c :: (lexeme ++ cs)) =
      offset + bytes gap + bytes (c :: lexeme) + bytes cs := by
  rw [bytes_append, ← List.cons_append, bytes_append, Nat.add_assoc, Nat.add_assoc]

/-- A token and the white space before it. -/
structure Piece where
  gap : String
  token : Token

/-- The source text of a piece. -/
def Piece.text (piece : Piece) : String := piece.gap ++ piece.token.lexeme

/-- The source text of pieces, one after the other. -/
def spelled (pieces : List Piece) : String := String.join (pieces.map Piece.text)

/-- The mark of the end of a source that is so many bytes long. -/
def endMark (size : Nat) : Token := ⟨.eof, "", size⟩

/-- The byte behind the token. -/
def stop (t : Token) : Nat := t.offset + t.lexeme.utf8ByteSize

/-- From the byte `offset` on, the lexer reads tokens in full, one after the other, each behind
white space; `left` is not read. -/
inductive ReadInFull : Nat → List Char → List Piece → List Char → Prop where
  | nil {offset : Nat} {left : List Char} : ReadInFull offset left [] left
  | cons {offset : Nat} {gap lexeme cs left : List Char} {c : Char} {kind : TokenKind}
    {pieces : List Piece} (hgap : ∀ x ∈ gap, Text.isBlank x = true)
    (hc : Text.isBlank c = false) (hscan : scan c (lexeme ++ cs) = .ok (kind, lexeme.length))
    (h : ReadInFull (offset + bytes gap + bytes (c :: lexeme)) cs pieces left) :
    ReadInFull offset (gap ++ c :: (lexeme ++ cs))
      (⟨String.ofList gap, kind, String.ofList (c :: lexeme), offset + bytes gap⟩ :: pieces) left

/-- No token is read in full from what is left. -/
def NothingComplete (left : List Char) : Prop :=
  ∀ c cs, Text.trimStart left = c :: cs → ∀ read, scan c cs ≠ .ok read

/-- White space and tokens in turn: between the tokens is nothing else, each of them is no empty
text, and it starts where what stands before it ends. -/
structure LaidOut (offset : Nat) (pieces : List Piece) : Prop where
  gap_blank : ∀ piece ∈ pieces, ∀ c ∈ piece.gap.toList, Text.isBlank c = true
  lexeme_ne : ∀ piece ∈ pieces, piece.token.lexeme ≠ "" ∧ piece.token.kind ≠ .eof
  offset_eq : ∀ before piece after, pieces = before ++ piece :: after →
    piece.token.offset = offset + (spelled before ++ piece.gap).utf8ByteSize

variable {pieces : List Piece} {piece : Piece}

theorem spelled_cons (piece : Piece) (pieces : List Piece) :
    spelled (piece :: pieces) = piece.gap ++ piece.token.lexeme ++ spelled pieces := by
  simp [spelled, Piece.text]

theorem spelled_append (pieces pieces' : List Piece) :
    spelled (pieces ++ pieces') = spelled pieces ++ spelled pieces' := by
  simp [spelled]

theorem ReadInFull.spelled_eq (h : ReadInFull offset cs pieces left) :
    cs = (spelled pieces).toList ++ left := by
  induction h with
  | nil => rfl
  | cons _ _ _ _ ih => simp [spelled_cons, ih]

theorem ReadInFull.laidOut (h : ReadInFull offset cs pieces left) : LaidOut offset pieces := by
  induction h with
  | nil => exact ⟨by simp, by simp, by simp⟩
  | @cons offset gap lexeme cs left c kind pieces hgap hc hscan h ih =>
    refine ⟨?_, ?_, ?_⟩
    · simpa using ⟨hgap, ih.gap_blank⟩
    · refine List.forall_mem_cons.mpr ⟨⟨by simp, ?_⟩, ih.lexeme_ne⟩
      rintro rfl
      exact plain_of_scan hscan
    · intro before piece after hsplit
      cases before with
      | nil =>
        cases hsplit
        simp [spelled, bytes_eq]
      | cons first before =>
        obtain ⟨rfl, rfl⟩ := List.cons.inj hsplit
        rw [ih.offset_eq before piece after rfl, spelled_cons, bytes_eq, bytes_eq]
        simp only [String.utf8ByteSize_append]
        omega

/-- A token ends before another one starts. -/
def Before (s t : Token) : Prop := s.offset < t.offset ∧ s.stop ≤ t.offset

theorem LaidOut.le_offset (h : LaidOut offset pieces) (hpiece : piece ∈ pieces) :
    offset ≤ piece.token.offset := by
  obtain ⟨before, after, hsplit⟩ := List.append_of_mem hpiece
  rw [h.offset_eq before piece after hsplit]
  exact Nat.le_add_right _ _

/-- Tokens come one after the other, and the end of the source after all of them. -/
theorem ReadInFull.pairwise_before (h : ReadInFull offset cs pieces left) :
    (pieces.map Piece.token ++ [endMark (offset + bytes cs)]).Pairwise Before := by
  induction h with
  | nil => exact List.pairwise_singleton _ _
  | @cons offset gap lexeme cs left c kind pieces hgap hc hscan h ih =>
    have hpos : 0 < bytes (c :: lexeme) := Nat.add_pos_left c.utf8Size_pos _
    have hlater : ∀ t ∈ pieces.map Piece.token ++
        [endMark (offset + bytes gap + bytes (c :: lexeme) + bytes cs)],
          offset + bytes gap + bytes (c :: lexeme) ≤ t.offset := by
      refine List.forall_mem_append.mpr
        ⟨List.forall_mem_map.mpr fun piece hpiece => ?_, by simp [endMark]⟩
      exact h.laidOut.le_offset hpiece
    rw [add_bytes_piece]
    refine List.pairwise_cons.mpr ⟨fun t ht => ?_, ih⟩
    have hle := hlater t ht
    simp only [Before, stop, ← bytes_eq]
    omega

/-! ## All tokens -/

theorem tokensFrom_gap (offset : Nat) (hgap : ∀ x ∈ gap, Text.isBlank x = true) (cs : List Char) :
    tokensFrom offset (gap ++ cs) = tokensFrom (offset + bytes gap) cs := by
  induction gap generalizing offset with
  | nil => rfl
  | cons c gap ih =>
    obtain ⟨hc, hgap⟩ := List.forall_mem_cons.mp hgap
    rw [List.cons_append, tokensFrom, if_pos hc, ih _ hgap, bytes, Nat.add_assoc]

/-- From any byte on, tokens are read in full up to the end of the source or to a fault on one of
the characters that are left. -/
theorem tokensFrom_reads (offset : Nat) (cs : List Char) :
    ∃ pieces left, ReadInFull offset cs pieces left ∧ NothingComplete left ∧
      ((∀ c ∈ left, Text.isBlank c = true) ∧ tokensFrom offset cs =
          .ok (pieces.map Piece.token ++ [endMark (offset + bytes cs)]) ∨
        ∃ before after fault, left = before ++ after ∧ after ≠ [] ∧ tokensFrom offset cs =
          .error (.lex (offset + (spelled pieces).utf8ByteSize + bytes before) fault)) := by
  -- white space first, then one token, then what is behind it
  obtain ⟨gap, rest, rfl, hgap, hrest⟩ : ∃ gap rest, cs = gap ++ rest ∧
      (∀ x ∈ gap, Text.isBlank x = true) ∧ Text.trimStart cs = rest :=
    ⟨cs.takeWhile Text.isBlank, _, List.takeWhile_append_dropWhile.symm,
      fun x => List.mem_takeWhile_imp, rfl⟩
  cases rest with
  | nil =>
    refine ⟨[], gap ++ [], .nil, fun c cs h => ?_, .inl ⟨by simpa using hgap, ?_⟩⟩
    · cases hrest.symm.trans h
    · rw [tokensFrom_gap offset hgap, tokensFrom, List.append_nil]
      rfl
  | cons c cs =>
    have hc : Text.isBlank c = false := Text.head?_trimStart _ c (by rw [hrest]; rfl)
    have hwithin := scan_within c cs
    cases hscan : scan c cs with
    | error fault =>
      rw [hscan] at hwithin
      refine ⟨[], _, .nil, fun c' cs' h => ?_, .inr ⟨gap ++ (c :: cs).take fault.ahead,
        (c :: cs).drop fault.ahead, fault.fault, by simp, ?_, ?_⟩⟩
      · cases hrest.symm.trans h
        simp [hscan]
      · have hlt : fault.ahead < (c :: cs).length := Nat.lt_succ_of_le hwithin
        simpa using hlt
      · rw [tokensFrom_gap offset hgap, tokensFrom_fault hc hscan]
        simp [spelled, bytes_append, Nat.add_assoc]
    | ok read =>
      obtain ⟨kind, extra⟩ := read
      rw [hscan] at hwithin
      obtain ⟨lexeme, after, rfl, rfl⟩ : ∃ lexeme after, cs = lexeme ++ after ∧
          lexeme.length = extra :=
        ⟨_, _, (List.take_append_drop extra cs).symm, List.length_take_of_le hwithin⟩
      obtain ⟨pieces, left, hread, hnothing, hend⟩ :=
        tokensFrom_reads (offset + bytes gap + bytes (c :: lexeme)) after
      refine ⟨_, left, .cons hgap hc hscan hread, hnothing, ?_⟩
      rw [tokensFrom_gap offset hgap, tokensFrom_token hc hscan, add_bytes_piece]
      rcases hend with ⟨hblank, hok⟩ | ⟨before, behind, fault, hleft, hne, herror⟩
      · rw [hok]
        exact .inl ⟨hblank, rfl⟩
      · refine .inr ⟨before, behind, fault, hleft, hne, ?_⟩
        rw [herror]
        simp [Except.map, spelled_cons, bytes_eq, Nat.add_assoc]
termination_by cs.length
decreasing_by
  subst_vars
  simp only [List.length_append, List.length_cons]
  omega

/-- The token is the piece of the source that starts at its offset. -/
def IsSlice (source : String) (t : Token) : Prop :=
  ∃ before after, source = before ++ t.lexeme ++ after ∧ t.offset = before.utf8ByteSize

/-- A piece among others, from the start of the source on. -/
theorem LaidOut.exists_around (h : LaidOut 0 pieces) (hpiece : piece ∈ pieces) :
    ∃ before after, spelled pieces = before ++ piece.token.lexeme ++ after ∧
      piece.token.offset = before.utf8ByteSize := by
  obtain ⟨before, after, hsplit⟩ := List.append_of_mem hpiece
  refine ⟨spelled before ++ piece.gap, spelled after, ?_, ?_⟩
  · rw [hsplit, spelled_append, spelled_cons]
    simp only [String.append_assoc]
  · rw [h.offset_eq before piece after hsplit, Nat.zero_add]

end Token

open Token

/-- Every source text is read as tokens, or has a fault. In both cases white space and the complete
tokens, in turn, give back the source up to what is left; each of the tokens is the piece of the
source that starts at its offset and is no empty text, and it ends before the next one starts. If
all is read then white space is left, and the mark of the end follows, at the length of the source.
If there is a fault then no further token is complete, and the position of the fault is where a
character of the source starts, behind all complete tokens. -/
theorem tokenize_lossless (source : String) :
    ∃ pieces left, source = spelled pieces ++ left ∧ LaidOut 0 pieces ∧
      ReadInFull 0 source.toList pieces left.toList ∧ NothingComplete left.toList ∧
      (∀ t ∈ pieces.map Piece.token ++ [endMark source.utf8ByteSize], t.IsSlice source) ∧
      (pieces.map Piece.token ++ [endMark source.utf8ByteSize]).Pairwise Before ∧
      ((∀ c ∈ left.toList, Text.isBlank c = true) ∧
          tokenize source = .ok (pieces.map Piece.token ++ [endMark source.utf8ByteSize]) ∨
        ∃ position fault, tokenize source = .error (.lex position fault) ∧
          (∃ before after, source = before ++ after ∧ after ≠ "" ∧
            position = before.utf8ByteSize) ∧
          ∀ piece ∈ pieces, piece.token.stop ≤ position) := by
  obtain ⟨pieces, left, hread, hnothing, hend⟩ := tokensFrom_reads 0 source.toList
  have hlaid := hread.laidOut
  have hpairwise := hread.pairwise_before
  have hsource : source = spelled pieces ++ String.ofList left := by
    rw [← String.toList_inj, hread.spelled_eq]
    simp
  rw [Nat.zero_add, bytes_toList] at hpairwise hend
  refine ⟨pieces, String.ofList left, hsource, hlaid, by rwa [String.toList_ofList],
    by rwa [String.toList_ofList], ?_, hpairwise, ?_⟩
  · refine List.forall_mem_append.mpr ⟨List.forall_mem_map.mpr fun piece hpiece => ?_, ?_⟩
    · obtain ⟨before, after, hspelled, hoffset⟩ := hlaid.exists_around hpiece
      refine ⟨before, after ++ String.ofList left, ?_, hoffset⟩
      rw [hsource, hspelled, String.append_assoc]
    · exact List.forall_mem_singleton.mpr ⟨source, "", by simp [endMark], rfl⟩
  · rcases hend with ⟨hblank, hok⟩ | ⟨before, after, fault, rfl, hne, herror⟩
    · exact .inl ⟨by rwa [String.toList_ofList], hok⟩
    · refine .inr ⟨_, fault, herror, ⟨spelled pieces ++ String.ofList before,
        String.ofList after, ?_, by simpa using hne, ?_⟩, fun piece hpiece => ?_⟩
      · rw [hsource, String.ofList_append, String.append_assoc]
      · rw [String.utf8ByteSize_append, bytes_eq, Nat.zero_add]
      · obtain ⟨around, behind, hspelled, hoffset⟩ := hlaid.exists_around hpiece
        rw [hspelled, stop, hoffset]
        simp only [String.utf8ByteSize_append]
        omega

/-- A text that is not closed is a fault where it starts. -/
example : tokenize "1 & \"abc" = .error (.lex 4 .unterminatedText) := by cbv

end ComputedFields
