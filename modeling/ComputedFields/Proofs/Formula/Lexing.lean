import ComputedFields.Formula.Printer
import ComputedFields.Proofs.Decimal.Text
import ComputedFields.Proofs.Text.Blank
import ComputedFields.Proofs.Text.LetterCase
import Mathlib.Data.List.TakeWhile

/-!
# Tokens of written text

The pieces that formulas are written from are read back as one token each, whatever follows them,
for numbers and truth values as long as it cannot go on with them. `Lexes` says so of any
characters, and is closed under putting them one after the other.
-/

namespace ComputedFields

namespace Token

variable {c d : Char} {cs cs' rest : List Char} {kind : TokenKind} {kinds kinds' : List TokenKind}
  {n : Decimal}

/-! ## Composition -/

/-- Before `rest`, the characters are read as tokens of these kinds. -/
def Lexes (cs : List Char) (kinds : List TokenKind) (rest : List Char) : Prop :=
  ∀ offset, ∃ (tokens : List Token) (after : Nat), tokens.map (·.kind) = kinds ∧
    tokensFrom offset (cs ++ rest) = (tokensFrom after rest).map (tokens ++ ·)

/-- The characters cannot be read. -/
def Stuck (cs : List Char) : Prop := ∀ offset, ∃ err, tokensFrom offset cs = .error err

theorem Lexes.append (h : Lexes cs kinds (cs' ++ rest)) (h' : Lexes cs' kinds' rest) :
    Lexes (cs ++ cs') (kinds ++ kinds') rest := by
  intro offset
  obtain ⟨tokens, after, hkinds, hread⟩ := h offset
  obtain ⟨tokens', after', hkinds', hread'⟩ := h' after
  refine ⟨tokens ++ tokens', after', by rw [List.map_append, hkinds, hkinds'], ?_⟩
  rw [List.append_assoc, hread, hread']
  cases tokensFrom after' rest with
  | error err => rfl
  | ok all => exact congrArg Except.ok (List.append_assoc _ _ _).symm

theorem Lexes.stuck (h : Lexes cs kinds rest) (h' : Stuck rest) : Stuck (cs ++ rest) := by
  intro offset
  obtain ⟨tokens, after, -, hread⟩ := h offset
  obtain ⟨err, herr⟩ := h' after
  exact ⟨err, by rw [hread, herr]; rfl⟩

theorem Lexes.nil : Lexes [] [] rest := by
  intro offset
  refine ⟨[], offset, rfl, ?_⟩
  rw [List.nil_append]
  cases tokensFrom offset rest <;> rfl

/-- Characters that are scanned as one token come before all tokens of the rest. -/
theorem tokensFrom_token (hblank : Text.isBlank c = false)
    (hscan : scan c (cs ++ rest) = .ok (kind, cs.length)) (offset : Nat) :
    tokensFrom offset (c :: (cs ++ rest)) = (tokensFrom (offset + bytes (c :: cs)) rest).map
      (⟨kind, String.ofList (c :: cs), offset⟩ :: ·) := by
  rw [tokensFrom, hblank, hscan]
  simp only [List.take_left, List.drop_left, if_false, Bool.false_eq_true]
  cases tokensFrom (offset + bytes (c :: cs)) rest <;> rfl

/-- A fault lies where the scan of a token comes to it. -/
theorem tokensFrom_fault {fault : FaultAt} (hblank : Text.isBlank c = false)
    (hscan : scan c cs = .error fault) (offset : Nat) : tokensFrom offset (c :: cs) =
      .error (.lex (offset + bytes ((c :: cs).take fault.ahead)) fault.fault) := by
  rw [tokensFrom, hblank, hscan]
  rfl

theorem Lexes.token (c : Char) (cs : List Char) (hblank : Text.isBlank c = false)
    (hscan : scan c (cs ++ rest) = .ok (kind, cs.length)) : Lexes (c :: cs) [kind] rest :=
  fun offset => ⟨[_], _, rfl, tokensFrom_token hblank hscan offset⟩

theorem Lexes.blank (hblank : Text.isBlank c = true) : Lexes [c] [] rest := by
  intro offset
  refine ⟨[], offset + c.utf8Size, rfl, ?_⟩
  rw [List.cons_append, List.nil_append, tokensFrom, hblank, if_pos rfl]
  cases tokensFrom (offset + c.utf8Size) rest <;> rfl

theorem stuck_of_scan {fault : FaultAt} (hblank : Text.isBlank c = false)
    (hscan : scan c cs = .error fault) : Stuck (c :: cs) :=
  fun offset => ⟨_, tokensFrom_fault hblank hscan offset⟩

/-! ## Symbols -/

theorem Lexes.single (hkind : single? c = some kind) (hblank : Text.isBlank c = false) :
    Lexes [c] [kind] rest := by
  refine Lexes.token c [] hblank ?_
  rw [scan, hkind]
  rfl

theorem Lexes.space : Lexes [' '] [] rest := Lexes.blank (by decide)

theorem Lexes.comma : Lexes [',', ' '] [.comma] rest :=
  Lexes.append (Lexes.single (c := ',') rfl (by decide)) Lexes.space

/-- The token of an operator. -/
def operatorKind : BinaryOperator → TokenKind
  | .add => .plus
  | .subtract => .minus
  | .multiply => .star
  | .divide => .slash
  | .concat => .ampersand
  | .equal => .equal
  | .notEqual => .notEqual
  | .lessThan => .lessThan
  | .lessEqual => .lessEqual
  | .greaterThan => .greaterThan
  | .greaterEqual => .greaterEqual

/-- An operator is read back before a space. -/
theorem Lexes.operator (op : BinaryOperator) :
    Lexes op.symbol.toList [operatorKind op] (' ' :: rest) := by
  cases op with
  | add | subtract | multiply | divide | concat | equal =>
    exact Lexes.single rfl (by decide)
  | notEqual | lessEqual | greaterEqual =>
    exact Lexes.token _ ['='] (by decide) rfl
  | lessThan | greaterThan => exact Lexes.token _ [] (by decide) rfl

/-! ## Texts and fields -/

section Quoted

variable {close : Char} {escape? : Char → Option Char} {fault : LexFault} {ahead : Nat}

theorem readUntil_close :
    readUntil close escape? fault ahead (close :: rest) = .ok ([], ahead) := by
  cases rest <;> simp [readUntil]

theorem readUntil_escape (hclose : close ≠ '\\') (hd : escape? d = some c) :
    readUntil close escape? fault ahead ('\\' :: d :: cs) =
      (readUntil close escape? fault (ahead + 2) cs).map fun read => (c :: read.1, read.2) := by
  rw [readUntil, if_neg hclose.symm, if_pos rfl, hd]
  cases readUntil close escape? fault (ahead + 2) cs <;> rfl

theorem readUntil_plain (hclose : c ≠ close) (hslash : c ≠ '\\') (hne : cs ≠ []) :
    readUntil close escape? fault ahead (c :: cs) =
      (readUntil close escape? fault (ahead + 1) cs).map fun read => (c :: read.1, read.2) := by
  obtain ⟨d, ds, rfl⟩ := List.exists_cons_of_ne_nil hne
  rw [readUntil, if_neg hclose, if_neg hslash]
  cases readUntil close escape? fault (ahead + 1) (d :: ds) <;> rfl

/-- What an escape function writes is read back up to the closing character. -/
theorem readUntil_flatMap {escape : Char → List Char} (hclose : close ≠ '\\')
    (hescape : ∀ c, (∃ d, escape c = ['\\', d] ∧ escape? d = some c) ∨
      escape c = [c] ∧ c ≠ close ∧ c ≠ '\\') :
    readUntil close escape? fault ahead (cs.flatMap escape ++ close :: rest) =
      .ok (cs, ahead + (cs.flatMap escape).length) := by
  induction cs generalizing ahead with
  | nil => exact readUntil_close
  | cons c cs ih =>
    rw [List.flatMap_cons, List.append_assoc, List.length_append]
    rcases hescape c with ⟨d, hd, hback⟩ | ⟨hc, hne, hslash⟩
    · rw [hd]
      show readUntil close escape? fault ahead
        ('\\' :: d :: (cs.flatMap escape ++ close :: rest)) = _
      rw [readUntil_escape hclose hback, ih, Nat.add_assoc]
      rfl
    · rw [hc]
      show readUntil close escape? fault ahead (c :: (cs.flatMap escape ++ close :: rest)) = _
      rw [readUntil_plain hne hslash (by simp), ih, Nat.add_assoc]
      rfl

end Quoted

theorem Lexes.text (s : String) : Lexes (Expr.writeText s) [.text s] rest := by
  have hescape : ∀ c, (∃ d, Expr.escapeText c = ['\\', d] ∧ textEscape? d = some c) ∨
      Expr.escapeText c = [c] ∧ c ≠ '"' ∧ c ≠ '\\' := by
    intro c
    rw [Expr.escapeText]
    split
    · rename_i hc
      simp only [Bool.or_eq_true, decide_eq_true_eq] at hc
      rcases hc with rfl | rfl
      · exact .inl ⟨'"', rfl, rfl⟩
      · exact .inl ⟨'\\', rfl, rfl⟩
    · rename_i hc
      simp only [Bool.or_eq_true, decide_eq_true_eq, not_or] at hc
      split
      · rename_i hnewline
        exact .inl ⟨'n', rfl, by rw [hnewline]; rfl⟩
      · split
        · rename_i htab
          exact .inl ⟨'t', rfl, by rw [htab]; rfl⟩
        · exact .inr ⟨rfl, hc⟩
  -- the text ends at the first quote without a backslash, which is the closing one
  have hread : readUntil '"' textEscape? .unterminatedText 1
      (s.toList.flatMap Expr.escapeText ++ '"' :: rest) = .ok (s.toList, _) :=
    readUntil_flatMap (by decide) hescape
  refine Lexes.token '"' (s.toList.flatMap Expr.escapeText ++ ['"']) (by decide) ?_
  show scanText '"' _ = _
  rw [scanText, List.append_assoc, List.singleton_append, hread]
  simp [Nat.add_comm]

theorem Lexes.field {name : String} (h : Text.Trimmed name) :
    Lexes (Expr.writeField name) [.field name] rest := by
  have hescape : ∀ c, (∃ d, Expr.escapeField c = ['\\', d] ∧ fieldEscape? d = some c) ∨
      Expr.escapeField c = [c] ∧ c ≠ '\x7d' ∧ c ≠ '\\' := by
    intro c
    rw [Expr.escapeField]
    split
    · rename_i hc
      simp only [Bool.or_eq_true, decide_eq_true_eq] at hc
      rcases hc with (rfl | rfl) | rfl
      · exact .inl ⟨'\x7b', rfl, rfl⟩
      · exact .inl ⟨'\x7d', rfl, rfl⟩
      · exact .inl ⟨'\\', rfl, rfl⟩
    · rename_i hc
      simp only [Bool.or_eq_true, decide_eq_true_eq, not_or] at hc
      exact .inr ⟨rfl, hc.1.2, hc.2⟩
  have hread : readUntil '\x7d' fieldEscape? .unterminatedField 1
      (name.toList.flatMap Expr.escapeField ++ '\x7d' :: rest) = .ok (name.toList, _) :=
    readUntil_flatMap (by decide) hescape
  refine Lexes.token '\x7b' (name.toList.flatMap Expr.escapeField ++ ['\x7d']) (by decide) ?_
  show scanField _ = _
  rw [scanField, List.append_assoc, List.singleton_append, hread]
  simp only [h.2, List.isEmpty_iff, h.1, if_false, String.ofList_toList, List.length_append,
    List.length_singleton, Nat.add_comm]

/-! ## Numbers -/

/-- What cannot go on with a number. -/
def EndsNumber (rest : List Char) : Prop :=
  ∀ c ∈ rest.head?, c.isDigit = false ∧ c ≠ '.' ∧ c ≠ 'e' ∧ c ≠ 'E'

theorem digitRun_append (hdigits : ∀ c ∈ cs, c.isDigit = true)
    (hrest : ∀ c ∈ rest.head?, c.isDigit = false) : digitRun (cs ++ rest) = cs.length := by
  rw [digitRun, List.takeWhile_append_of_pos hdigits]
  cases rest with
  | nil => simp
  | cons c rest => simp [hrest c (by simp)]

theorem exponentLength_eq_zero (h : EndsNumber rest) : exponentLength rest = 0 := by
  cases rest with
  | nil => rfl
  | cons c rest =>
    obtain ⟨-, -, he, hE⟩ := h c (by simp)
    simp [exponentLength, he, hE]

theorem fractionLength_eq_zero (h : EndsNumber rest) : fractionLength rest = 0 := by
  cases rest with
  | nil => rfl
  | cons c rest =>
    obtain ⟨-, hpoint, -⟩ := h c (by simp)
    rw [fractionLength]
    intro cs heq
    exact hpoint (List.cons.inj heq).1

/-- A written number ends where it does, and has no exponent. -/
theorem numberLength_toChars (hn : n.negative = false) (hrest : EndsNumber rest) :
    numberLength (n.toChars ++ rest) = (n.toChars.length, false) := by
  -- what follows goes on neither with digits nor with a fraction or an exponent
  have hexp := exponentLength_eq_zero hrest
  have hfrac := fractionLength_eq_zero hrest
  have hdigit : ∀ c ∈ rest.head?, c.isDigit = false := fun c hc => (hrest c hc).1
  rw [Decimal.toChars_eq hn, Decimal.pointChars]
  split
  · rw [List.append_nil, numberLength, digitRun_append (fun c => Decimal.isDigit_of_mem_wholeChars)
      hdigit]
    simp [hfrac, hexp]
  · rename_i hscale
    have hwhole : digitRun (n.wholeChars ++ ('.' :: (Digits.fixed n.scale n.mantissa ++ rest))) =
        n.wholeChars.length :=
      digitRun_append (fun c => Decimal.isDigit_of_mem_wholeChars) (by simp)
    have hrun : digitRun (Digits.fixed n.scale n.mantissa ++ rest) = n.scale := by
      rw [digitRun_append (fun c => Digits.isDigit_of_mem_fixed) hdigit, Digits.length_fixed]
    have hpoint : fractionLength ('.' :: (Digits.fixed n.scale n.mantissa ++ rest)) =
        n.scale + 1 := by
      rw [fractionLength, hrun, if_neg hscale]
    have hdrop : (n.wholeChars ++ ('.' :: (Digits.fixed n.scale n.mantissa ++ rest))).drop
        (n.wholeChars.length + (n.scale + 1)) = rest := by
      rw [List.drop_length_add_append, List.drop_succ_cons]
      exact List.drop_left' (Digits.length_fixed _ _)
    rw [List.append_assoc, List.cons_append, numberLength]
    simp only [hwhole, List.drop_left, hpoint, hdrop, hexp, List.length_append, List.length_cons,
      Digits.length_fixed]
    rfl

theorem scan_digit (h : c.isDigit = true) : scan c cs = scanNumber (c :: cs) := by
  have hne : ∀ x : Char, x.isDigit = false → c ≠ x := by
    rintro x hx rfl
    rw [h] at hx
    cases hx
  have hsingle : single? c = none := by
    unfold single?
    split <;> first | rfl | exact absurd h (by decide)
  rw [scan, hsingle]
  simp [hne '!' (by decide), hne '<' (by decide), hne '>' (by decide), hne '"' (by decide),
    hne '\'' (by decide), hne '\x7b' (by decide), h]

theorem Lexes.number (hn : n.negative = false) (hrest : EndsNumber rest) :
    Lexes n.toChars [.number n] rest := by
  obtain ⟨c, cs, hcs, hc⟩ := Decimal.head?_toChars hn
  have hlength := numberLength_toChars hn hrest
  have hread := Decimal.ofChars?_toChars hn
  rw [hcs] at hlength hread ⊢
  refine Lexes.token _ _ (Text.isBlank_digit hc) ?_
  rw [scan_digit hc, scanNumber, ← List.cons_append, hlength]
  simp only [List.take_left, hread, Bool.false_eq_true, if_false]
  rfl

/-! ## Words -/

/-- The characters that start tokens other than words and numbers. -/
def symbols : List Char :=
  ['+', '-', '*', '/', '&', '=', '(', ')', ',', '!', '<', '>', '"', '\'', '\x7b', '.']

/-- A character that starts no other token starts a word or is out of place. -/
theorem scan_other (hsymbol : c ∉ symbols) (hdigit : c.isDigit = false) :
    scan c cs = if startsWord c then .ok (scanWord (c :: cs))
      else .error ⟨0, .unexpectedCharacter c⟩ := by
  have hne : ∀ x ∈ symbols, c ≠ x := by
    rintro x hx rfl
    exact hsymbol hx
  have hsingle : single? c = none := by
    unfold single?
    split <;> first | rfl | exact absurd (by decide) hsymbol
  rw [scan, hsingle]
  simp [hne '!' (by decide), hne '<' (by decide), hne '>' (by decide), hne '"' (by decide),
    hne '\'' (by decide), hne '\x7b' (by decide), hne '.' (by decide), hdigit]

theorem not_symbol_of_startsWord (h : startsWord c = true) :
    c ∉ symbols ∧ c.isDigit = false := by
  have hsymbols : symbols.all (fun x => !startsWord x) = true := by decide
  constructor
  · intro hmem
    have hstart : (!startsWord c) = true := List.all_eq_true.mp hsymbols c hmem
    rw [h] at hstart
    cases hstart
  · cases hdigit : c.isDigit with
    | false => rfl
    | true =>
      have hle : c.toNat ≤ 57 := by
        have hrange : 48 ≤ c.toNat ∧ c.toNat ≤ 57 := by
          simpa [Char.isDigit, UInt32.le_iff_toNat_le] using hdigit
        exact hrange.2
      have hunder : c ≠ '_' := by
        rintro rfl
        exact absurd hle (by decide)
      rw [startsWord, Text.isAlphabetic, Text.not_alphabetic_of_lt (by omega)] at h
      simp [hunder] at h

theorem not_symbol_of_lt (h : 127 < c.toNat) : c ∉ symbols ∧ c.isDigit = false := by
  have hsymbols : symbols.all (fun x => decide (x.toNat < 128)) = true := by decide
  constructor
  · intro hmem
    have hlow : c.toNat < 128 := of_decide_eq_true (List.all_eq_true.mp hsymbols c hmem)
    omega
  · cases hdigit : c.isDigit with
    | false => rfl
    | true =>
      have hrange : 48 ≤ c.toNat ∧ c.toNat ≤ 57 := by
        simpa [Char.isDigit, UInt32.le_iff_toNat_le] using hdigit
      omega

/-- What the lexer takes for a word. -/
def IsWord (cs : List Char) : Prop :=
  ∃ c tail, cs = c :: tail ∧ startsWord c = true ∧ ∀ x ∈ tail, continuesWord x = true

instance decidableIsWord : (cs : List Char) → Decidable (IsWord cs)
  | [] => isFalse (by rintro ⟨c, tail, hnil, -⟩; cases hnil)
  | c :: tail =>
    decidable_of_iff (startsWord c = true ∧ tail.all continuesWord = true) (by
      constructor
      · intro ⟨hc, htail⟩
        exact ⟨c, tail, rfl, hc, List.all_eq_true.mp htail⟩
      · intro ⟨c, tail, hcons, hc, htail⟩
        cases hcons
        exact ⟨hc, List.all_eq_true.mpr htail⟩)

/-- The token of a word that an opening parenthesis follows or does not follow. -/
def wordKind (name : String) (called : Bool) : TokenKind :=
  if !called && Text.sameIgnoringCase name "TRUE" then .boolean true
  else if !called && Text.sameIgnoringCase name "FALSE" then .boolean false
  else .identifier name

/-- A word is read to its end. -/
theorem Lexes.word (hword : IsWord cs) (hrest : ∀ c ∈ rest.head?, continuesWord c = false) :
    Lexes cs [wordKind (String.ofList cs) ((Text.trimStart rest).head? == some '(')] rest := by
  obtain ⟨c, tail, rfl, hc, htail⟩ := hword
  have hall : ∀ x ∈ c :: tail, continuesWord x = true := by
    intro x hx
    rcases List.mem_cons.mp hx with rfl | hx
    · exact Text.continuesWord_of_startsWord hc
    · exact htail x hx
  have htake : (c :: tail ++ rest).takeWhile continuesWord = c :: tail := by
    rw [List.takeWhile_append_of_pos hall]
    cases rest with
    | nil => simp
    | cons x rest => simp [hrest x (by simp)]
  have hdrop : (c :: tail ++ rest).dropWhile continuesWord = rest := by
    rw [List.dropWhile_append_of_pos hall]
    cases rest with
    | nil => rfl
    | cons x rest => simp [hrest x (by simp)]
  obtain ⟨hsymbol, hdigit⟩ := not_symbol_of_startsWord hc
  refine Lexes.token c tail (Text.isBlank_of_continuesWord (hall c (by simp))) ?_
  rw [scan_other hsymbol hdigit, if_pos hc, ← List.cons_append, scanWord, htake, hdrop]
  rfl

/-- A word before an opening parenthesis is a name. -/
theorem Lexes.identifier {name : String} (hword : IsWord name.toList) :
    Lexes name.toList [.identifier name] ('(' :: rest) := by
  have hend : ∀ c ∈ ('(' :: rest).head?, continuesWord c = false := by
    intro c hc
    cases hc
    decide
  have hlex := Lexes.word hword hend
  have htrim : Text.trimStart ('(' :: rest) = '(' :: rest := by
    rw [Text.trimStart, List.dropWhile_cons_of_neg (by decide)]
  rw [htrim, String.ofList_toList] at hlex
  exact hlex

/-- Characters that a word cannot go on with, and after which none is called. -/
def EndsWord (rest : List Char) : Prop :=
  (∀ c ∈ rest.head?, continuesWord c = false) ∧ (Text.trimStart rest).head? ≠ some '('

theorem Lexes.boolean (value : Bool) (hrest : EndsWord rest) :
    Lexes (Expr.writeLiteral (.boolean value)) [.boolean value] rest := by
  have hcalled : ((Text.trimStart rest).head? == some '(') = false :=
    beq_eq_false_iff_ne.mpr hrest.2
  cases value with
  | true =>
    have hlex : Lexes "TRUE".toList [_] rest := Lexes.word (by decide) hrest.1
    rw [hcalled] at hlex
    exact hlex
  | false =>
    have hlex : Lexes "FALSE".toList [_] rest := Lexes.word (by decide) hrest.1
    rw [hcalled] at hlex
    exact hlex

/-! ## Names in upper case -/

/-- A character that is out of place where a token starts. -/
theorem stuck_of_not_startsWord (hhigh : 127 < c.toNat) (hblank : Text.isBlank c = false)
    (hc : startsWord c = false) : Stuck (c :: cs) := by
  obtain ⟨hsymbol, hdigit⟩ := not_symbol_of_lt hhigh
  have hscan : scan c cs = .error ⟨0, .unexpectedCharacter c⟩ := by
    rw [scan_other hsymbol hdigit, hc]
    rfl
  exact stuck_of_scan hblank hscan

theorem startsWord_of_continuesWord_false (h : continuesWord c = false) :
    startsWord c = false := by
  cases hc : startsWord c with
  | false => rfl
  | true =>
    rw [Text.continuesWord_of_startsWord hc] at h
    cases h

/-- Characters that are no word cannot be read if each of them goes on with a word or starts no
token: a character that does not go on with the word starts no token either. -/
theorem stuck_of_not_isWord {tail : List Char}
    (hfirst : (127 < c.toNat ∧ Text.isBlank c = false) ∨ startsWord c = true)
    (hlater : ∀ x ∈ tail, (127 < x.toNat ∧ Text.isBlank x = false) ∨ continuesWord x = true)
    (hnot : ¬ IsWord (c :: tail)) : Stuck (c :: tail ++ rest) := by
  cases hc : startsWord c with
  | false =>
    rcases hfirst with ⟨hhigh, hblank⟩ | hstart
    · exact stuck_of_not_startsWord hhigh hblank hc
    · rw [hstart] at hc
      cases hc
  | true =>
    -- the word ends at the first character that does not go on with it
    cases hdrop : tail.dropWhile continuesWord with
    | nil =>
      refine absurd ⟨c, tail, rfl, hc, ?_⟩ hnot
      exact List.dropWhile_eq_nil_iff.mp hdrop
    | cons x after =>
      have hsplit : tail = tail.takeWhile continuesWord ++ x :: after := by
        rw [← hdrop, List.takeWhile_append_dropWhile]
      have hx : continuesWord x = false := by
        have hhead := List.head?_dropWhile_not continuesWord tail
        rw [hdrop] at hhead
        simpa using hhead
      have hxin : x ∈ tail := by
        rw [hsplit]
        simp
      have hstuck : Stuck (x :: (after ++ rest)) := by
        rcases hlater x hxin with ⟨hhigh, hblank⟩ | hcont
        · exact stuck_of_not_startsWord hhigh hblank (startsWord_of_continuesWord_false hx)
        · rw [hx] at hcont
          cases hcont
      have hword : IsWord (c :: tail.takeWhile continuesWord) :=
        ⟨c, _, rfl, hc, fun y hy => List.mem_takeWhile_imp hy⟩
      have hend : ∀ y ∈ (x :: (after ++ rest)).head?, continuesWord y = false := by
        intro y hy
        cases hy
        exact hx
      have hall := (Lexes.word hword hend).stuck hstuck
      rw [hsplit]
      simpa using hall

/-- Where the upper case of a word is no word itself, it cannot be read. -/
theorem stuck_of_toUpper {word : String} (hword : IsWord word.toList)
    (hupper : ¬ IsWord (Text.toUpper word).toList) :
    Stuck ((Text.toUpper word).toList ++ rest) := by
  obtain ⟨w, ws, hws, hw, htail⟩ := hword
  have hchars : (Text.toUpper word).toList = Text.upperChar w ++ ws.flatMap Text.upperChar := by
    rw [Text.toUpper, String.toList_ofList, hws, List.flatMap_cons]
  obtain ⟨c, cs, hcs⟩ := List.exists_cons_of_ne_nil (Text.upperChar_ne_nil w)
  have hlist : (Text.toUpper word).toList = c :: (cs ++ ws.flatMap Text.upperChar) := by
    rw [hchars, hcs]
    rfl
  have hfirst := Text.upperChar_of_word (Text.continuesWord_of_startsWord hw)
    (x := c) (by rw [hcs]; simp)
  have hlater : ∀ x ∈ cs ++ ws.flatMap Text.upperChar,
      (127 < x.toNat ∧ Text.isBlank x = false) ∨ continuesWord x = true := by
    intro x hx
    rcases List.mem_append.mp hx with hx | hx
    · exact (Text.upperChar_of_word (Text.continuesWord_of_startsWord hw)
        (by rw [hcs]; exact List.mem_cons_of_mem _ hx)).imp_right And.left
    · obtain ⟨y, hy, hxy⟩ := List.mem_flatMap.mp hx
      exact (Text.upperChar_of_word (htail y hy) hxy).imp_right And.left
  rw [hlist] at hupper ⊢
  exact stuck_of_not_isWord (hfirst.imp_right fun h => h.2 hw) hlater hupper

end Token

end ComputedFields
