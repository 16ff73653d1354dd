import ComputedFields.Proofs.Formula.Lexing
import ComputedFields.Proofs.Formula.Naming
import ComputedFields.Proofs.Formula.Nodes

/-!
# Tokens of printed formulas

A printed formula is read back as the tokens of its parts, parentheses included, unless the name of
a call is no word; then it cannot be read at all.
-/

namespace ComputedFields

open Token

/-! ## Trees that can be printed -/

/-- The values that source text has literals for. -/
def Value.IsLiteral : Value → Prop
  | .boolean _ | .text _ => True
  | .number n => 0 ≤ n.signed
  | _ => False

/-- The values that source text has a literal, a sign and a literal, or a call for. -/
def Value.IsExpressible : Value → Prop
  | .null | .boolean _ | .text _ | .number _ => True
  | _ => False

theorem Value.IsLiteral.isExpressible {value : Value} (h : value.IsLiteral) :
    value.IsExpressible := by
  cases value <;> trivial

namespace Expr

/-- Whether a call would be read as a choice. -/
def ReadsAsChoice (name : String) (args : List Expr) : Prop :=
  name = "IF" ∧ (args.length = 2 ∨ args.length = 3)

/-- The names that the parser gives to calls: words in upper case. -/
def UpperWord (name : String) : Prop :=
  ∃ word : String, IsWord word.toList ∧ name = Text.toUpper word

/-- A node that the parser can make. -/
def NodeFits (r : Resolver) : Expr → Prop
  | .literal value => value.IsLiteral
  | .field f => r.Names f
  | .lookup link f => r.Follows link f
  | .call name args => UpperWord name ∧ ¬ ReadsAsChoice name args
  | _ => True

/-- A tree that the parser can make. -/
def Fits (r : Resolver) (e : Expr) : Prop := ∀ x ∈ e.nodes, x.NodeFits r

/-- The name of a node that is a call. -/
def callName? : Expr → Option String
  | .call name _ => some name
  | _ => none

/-- All names of calls are words. -/
def CallsWords (e : Expr) : Prop :=
  ∀ x ∈ e.nodes, ∀ name, x.callName? = some name → IsWord name.toList

variable {r : Resolver} {e operand left right condition yes no : Expr} {op : BinaryOperator}
  {name : String} {args : List Expr}

theorem Fits.node (h : e.Fits r) : e.NodeFits r := h e (self_mem_nodes e)

theorem fits_negate : (negate operand).Fits r ↔ operand.Fits r :=
  forall_nodes_negate.trans (and_iff_right trivial)

theorem fits_binary : (binary op left right).Fits r ↔ left.Fits r ∧ right.Fits r :=
  forall_nodes_binary.trans (and_iff_right trivial)

theorem fits_ifThen :
    (conditional condition yes none).Fits r ↔ condition.Fits r ∧ yes.Fits r :=
  forall_nodes_ifThen.trans (and_iff_right trivial)

theorem fits_ifThenElse : (conditional condition yes (some no)).Fits r ↔
    condition.Fits r ∧ yes.Fits r ∧ no.Fits r :=
  forall_nodes_ifThenElse.trans (and_iff_right trivial)

theorem fits_call : (call name args).Fits r ↔
    (UpperWord name ∧ ¬ ReadsAsChoice name args) ∧ ∀ e ∈ args, e.Fits r :=
  forall_nodes_call

theorem callsWords_leaf (hnodes : e.nodes = [e]) (hname : e.callName? = none) : e.CallsWords := by
  intro x hx name hcall
  rw [hnodes, List.mem_singleton] at hx
  rw [hx, hname] at hcall
  cases hcall

theorem callsWords_of_calls (h : ∀ name args, call name args ∈ e.nodes → IsWord name.toList) :
    e.CallsWords := by
  intro x hx name hname
  cases x with
  | call name' args =>
    cases hname
    exact h name args hx
  | _ => cases hname

theorem callsWords_negate : (negate operand).CallsWords ↔ operand.CallsWords :=
  forall_nodes_negate.trans (and_iff_right (by intro name hname; cases hname))

theorem callsWords_binary :
    (binary op left right).CallsWords ↔ left.CallsWords ∧ right.CallsWords :=
  forall_nodes_binary.trans (and_iff_right (by intro name hname; cases hname))

theorem callsWords_ifThen :
    (conditional condition yes none).CallsWords ↔ condition.CallsWords ∧ yes.CallsWords :=
  forall_nodes_ifThen.trans (and_iff_right (by intro name hname; cases hname))

theorem callsWords_ifThenElse : (conditional condition yes (some no)).CallsWords ↔
    condition.CallsWords ∧ yes.CallsWords ∧ no.CallsWords :=
  forall_nodes_ifThenElse.trans (and_iff_right (by intro name hname; cases hname))

theorem callsWords_call : (call name args).CallsWords ↔
    IsWord name.toList ∧ ∀ e ∈ args, e.CallsWords := by
  refine forall_nodes_call.trans (and_congr_left' ?_)
  constructor
  · intro h
    exact h name rfl
  · intro h name' hname
    cases hname
    exact h

/-! ## Tokens of a tree -/

/-- The tokens of a literal. -/
def literalKinds : Value → List TokenKind
  | .null => [.identifier "BLANK", .leftParen, .rightParen]
  | .boolean value => [.boolean value]
  | .number n =>
    if n.normalize.negative then [.minus, .number n.normalize.abs] else [.number n.normalize]
  | value => [.text value.toText]

/-- The tokens in parentheses, if they need them. -/
def enclose (needed : Bool) (kinds : List TokenKind) : List TokenKind :=
  if needed then [.leftParen] ++ kinds ++ [.rightParen] else kinds

mutual

/-- The tokens that a printed formula is read back as. -/
def kinds (nameOf : FieldId → String) : Expr → List TokenKind
  | .literal value => literalKinds value
  | .field f => [.field (nameOf f)]
  | .lookup link f => [.field (nameOf link)] ++ [.dot] ++ [.field (nameOf f)]
  | .negate operand => [.minus] ++ enclose (decide (operand.strength < 4)) (kinds nameOf operand)
  | .binary op left right =>
    enclose (decide (left.strength < op.level.rank)) (kinds nameOf left) ++ ([operatorKind op] ++
      enclose (decide (right.strength ≤ op.level.rank)) (kinds nameOf right))
  | .conditional condition yes none =>
    [.identifier "IF"] ++ [.leftParen] ++
      (kinds nameOf condition ++ [.comma] ++ kinds nameOf yes) ++ [.rightParen]
  | .conditional condition yes (some no) =>
    [.identifier "IF"] ++ [.leftParen] ++ (kinds nameOf condition ++ [.comma] ++
      (kinds nameOf yes ++ [.comma] ++ kinds nameOf no)) ++ [.rightParen]
  | .call name args => [.identifier name] ++ [.leftParen] ++ kindsAll nameOf args ++ [.rightParen]

/-- The tokens of arguments, with commas between. -/
def kindsAll (nameOf : FieldId → String) : List Expr → List TokenKind
  | [] => []
  | [e] => kinds nameOf e
  | e :: next :: rest => kinds nameOf e ++ [.comma] ++ kindsAll nameOf (next :: rest)

end

end Expr

/-! ## What follows an expression -/

/-- What comes after an expression in a printed formula. -/
inductive Follow : List Char → Prop
  | nil : Follow []
  | close (cs : List Char) : Follow (')' :: cs)
  | comma (cs : List Char) : Follow (',' :: cs)
  | operator (op : BinaryOperator) (cs : List Char) :
    Follow (' ' :: (op.symbol.toList ++ ' ' :: cs))

theorem BinaryOperator.symbol_eq_cons (op : BinaryOperator) :
    ∃ c cs, op.symbol.toList = c :: cs ∧ Text.isBlank c = false ∧ c ≠ '(' := by
  cases op <;> exact ⟨_, _, rfl, by decide, by decide⟩

theorem Follow.endsNumber {rest : List Char} (h : Follow rest) : EndsNumber rest := by
  intro c hc
  cases h with
  | nil => cases hc
  | close | comma | operator =>
    cases hc
    decide

theorem Follow.endsWord {rest : List Char} (h : Follow rest) : EndsWord rest := by
  constructor
  · intro c hc
    cases h with
    | nil => cases hc
    | close | comma | operator =>
      cases hc
      decide
  · cases h with
    | nil => decide
    | close cs | comma cs =>
      rw [Text.trimStart, List.dropWhile_cons_of_neg (by decide)]
      simp
    | operator op cs =>
      obtain ⟨c, symbol, hsymbol, hblank, hne⟩ := op.symbol_eq_cons
      rw [Text.trimStart, List.dropWhile_cons_of_pos (by decide), hsymbol, List.cons_append,
        List.dropWhile_cons_of_neg (by simp [hblank]), List.head?_cons]
      exact fun h => hne (Option.some.inj h)

namespace Token

variable {cs cs' rest : List Char} {ks ks' : List TokenKind} {p q : Prop}

/-- The characters are read as tokens of these kinds if `p` holds, and cannot be read if not. -/
def LexesIf (p : Prop) (cs : List Char) (ks : List TokenKind) (rest : List Char) : Prop :=
  p ∧ Lexes cs ks rest ∨ ¬ p ∧ Stuck (cs ++ rest)

theorem Lexes.always (h : Lexes cs ks rest) : LexesIf True cs ks rest := .inl ⟨trivial, h⟩

theorem LexesIf.congr (h : LexesIf p cs ks rest) (hpq : p ↔ q) : LexesIf q cs ks rest := by
  rwa [← propext hpq]

theorem LexesIf.append (h : LexesIf p cs ks (cs' ++ rest)) (h' : LexesIf q cs' ks' rest) :
    LexesIf (p ∧ q) (cs ++ cs') (ks ++ ks') rest := by
  rcases h with ⟨hp, hlex⟩ | ⟨hp, hstuck⟩
  · rcases h' with ⟨hq, hlex'⟩ | ⟨hq, hstuck⟩
    · exact .inl ⟨⟨hp, hq⟩, hlex.append hlex'⟩
    · refine .inr ⟨fun h => hq h.2, ?_⟩
      rw [List.append_assoc]
      exact hlex.stuck hstuck
  · refine .inr ⟨fun h => hp h.1, ?_⟩
    rw [List.append_assoc]
    exact hstuck

/-- Characters that are read whatever comes before, between or after others. -/
theorem LexesIf.after (h : Lexes cs ks (cs' ++ rest)) (h' : LexesIf q cs' ks' rest) :
    LexesIf q (cs ++ cs') (ks ++ ks') rest :=
  (h.always.append h').congr (by simp)

theorem LexesIf.before (h : LexesIf p cs ks (cs' ++ rest)) (h' : Lexes cs' ks' rest) :
    LexesIf p (cs ++ cs') (ks ++ ks') rest :=
  (h.append h'.always).congr (by simp)

theorem Lexes.leftParen : Lexes ['('] [.leftParen] rest := Lexes.single rfl (by decide)

theorem Lexes.rightParen : Lexes [')'] [.rightParen] rest := Lexes.single rfl (by decide)

theorem LexesIf.parenthesize (h : ∀ rest, Follow rest → LexesIf p cs ks rest) (needed : Bool)
    (hrest : Follow rest) :
    LexesIf p (Expr.parenthesize needed cs) (Expr.enclose needed ks) rest := by
  cases needed with
  | false => exact h rest hrest
  | true =>
    have hclose := (h (')' :: rest) (.close rest)).before Lexes.rightParen
    have hopen : Lexes ['('] [.leftParen] ((cs ++ [')']) ++ rest) := Lexes.leftParen
    have hall := LexesIf.after hopen hclose
    simpa [Expr.parenthesize, Expr.enclose] using hall

end Token

namespace Expr

variable {r : Resolver} {rest : List Char}

theorem nameIn_eq {f : FieldId} {name : String} (h : r.fieldName f = some name) :
    nameIn r f = name := by
  rw [nameIn, h]
  rfl

theorem lexes_field {f : FieldId} {name : String} (rest : List Char)
    (h : r.fieldName f = some name) (htrim : Text.Trimmed name) :
    Lexes (writeField (nameIn r f)) [.field (nameIn r f)] rest := by
  rw [nameIn_eq h]
  exact Lexes.field htrim

/-- A number that is not negative has no sign in its shortest form. -/
theorem negative_normalize_eq_false {n : Decimal} (h : 0 ≤ n.signed) :
    n.normalize.negative = false := by
  rw [Decimal.normalize]
  split
  · rfl
  · rename_i hzero
    rw [Decimal.signed] at h
    split at h
    · omega
    · rename_i hnegative
      exact (Bool.not_eq_true _).mp hnegative

theorem literalKinds_of_negative {n : Decimal} (h : n.normalize.negative = true) :
    literalKinds (.number n) = [.minus, .number n.normalize.abs] := if_pos h

theorem literalKinds_of_nonnegative {n : Decimal} (h : n.normalize.negative = false) :
    literalKinds (.number n) = [.number n.normalize] := if_neg (by simp [h])

theorem lexes_blank : Lexes "BLANK()".toList [.identifier "BLANK", .leftParen, .rightParen] rest :=
  have hname : Lexes "BLANK".toList [.identifier "BLANK"] ('(' :: (')' :: rest)) :=
    Lexes.identifier (by decide)
  have hopen : Lexes ['('] [.leftParen] (')' :: rest) := Lexes.leftParen
  (hname.append hopen).append Lexes.rightParen

theorem lexes_literal {value : Value} (h : value.IsExpressible) (hrest : Follow rest) :
    Lexes (writeLiteral value) (literalKinds value) rest := by
  cases value with
  | null => exact lexes_blank
  | boolean b => exact Lexes.boolean b hrest.endsWord
  | text s => exact Lexes.text s
  | number n =>
    show Lexes n.normalize.toChars _ rest
    cases hnegative : n.normalize.negative with
    | false =>
      rw [literalKinds_of_nonnegative hnegative]
      exact Lexes.number hnegative hrest.endsNumber
    | true =>
      rw [literalKinds_of_negative hnegative, Decimal.toChars_of_negative hnegative]
      have hminus : Lexes ['-'] [.minus] (n.normalize.abs.toChars ++ rest) :=
        Lexes.single rfl (by decide)
      exact hminus.append (Lexes.number rfl hrest.endsNumber)
  | date _ | duration _ | list _ | error _ => exact h.elim

theorem lexesIf_name {name : String} (h : UpperWord name) :
    LexesIf (IsWord name.toList) name.toList [.identifier name] ('(' :: rest) := by
  obtain ⟨word, hword, rfl⟩ := h
  by_cases hupper : IsWord (Text.toUpper word).toList
  · exact .inl ⟨hupper, Lexes.identifier hupper⟩
  · exact .inr ⟨hupper, stuck_of_toUpper hword hupper⟩

theorem lexesIf_if : LexesIf True "IF".toList [.identifier "IF"] ('(' :: rest) :=
  (Lexes.identifier (by decide)).always

/-! ## Reading characters back -/

/-- A printed tree is read back as the tokens of its parts, or not at all. -/
def LexesBack (r : Resolver) (e : Expr) : Prop :=
  ∀ rest, Follow rest → LexesIf e.CallsWords (e.write (nameIn r)) (e.kinds (nameIn r)) rest

theorem lexesBack_literal {value : Value} (h : value.IsExpressible) :
    (literal value).LexesBack r := by
  intro rest hrest
  have hwords : (literal value).CallsWords := callsWords_leaf (by rw [nodes]) rfl
  exact .inl ⟨hwords, lexes_literal h hrest⟩

theorem lexesBack_field {f : FieldId} (h : r.Names f) : (field f).LexesBack r := by
  intro rest hrest
  obtain ⟨name, hname, htrim, -⟩ := h
  have hwords : (field f).CallsWords := callsWords_leaf (by rw [nodes]) rfl
  exact .inl ⟨hwords, lexes_field rest hname htrim⟩

theorem lexesBack_lookup {link f : FieldId} (h : r.Follows link f) :
    (lookup link f).LexesBack r := by
  intro rest hrest
  obtain ⟨⟨name, hname, htrim, -⟩, -, name', hname', htrim', -⟩ := h
  have hwords : (lookup link f).CallsWords := callsWords_leaf (by rw [nodes]) rfl
  have hlink := lexes_field (['.'] ++ (writeField (nameIn r f) ++ rest)) hname htrim
  have hdot : Lexes ['.'] [.dot] (writeField (nameIn r f) ++ rest) :=
    Lexes.token '.' [] (by decide) rfl
  exact .inl ⟨hwords, (hlink.append hdot).append (lexes_field rest hname' htrim')⟩

theorem LexesBack.negate (h : operand.LexesBack r) : (negate operand).LexesBack r := by
  intro rest hrest
  have hoperand := LexesIf.parenthesize h (decide (operand.strength < 4)) hrest
  have hminus : Lexes ['-'] [.minus]
      (parenthesize (decide (operand.strength < 4)) (write (nameIn r) operand) ++ rest) :=
    Lexes.single rfl (by decide)
  exact (LexesIf.after hminus hoperand).congr callsWords_negate.symm

theorem LexesBack.binary (hleft : left.LexesBack r) (hright : right.LexesBack r) :
    (binary op left right).LexesBack r := by
  intro rest hrest
  have hrightPart := LexesIf.parenthesize hright (decide (right.strength ≤ op.level.rank)) hrest
  have hop := LexesIf.after (Lexes.operator op) (LexesIf.after Lexes.space hrightPart)
  have hleftPart := LexesIf.parenthesize hleft (decide (left.strength < op.level.rank))
    (Follow.operator op (parenthesize (decide (right.strength ≤ op.level.rank))
      (write (nameIn r) right) ++ rest))
  have hall := LexesIf.append (by simpa using hleftPart) (LexesIf.after Lexes.space hop)
  refine LexesIf.congr ?_ callsWords_binary.symm
  rw [kinds]
  show LexesIf _ (parenthesize _ (write (nameIn r) left) ++ [' '] ++ op.symbol.toList ++ [' '] ++
    parenthesize _ (write (nameIn r) right)) _ rest
  simpa using hall

theorem lexesIf_writeAll {es : List Expr} (h : ∀ e ∈ es, e.LexesBack r) {rest : List Char}
    (hrest : Follow rest) : LexesIf (∀ e ∈ es, e.CallsWords) (writeAll (nameIn r) es)
      (kindsAll (nameIn r) es) rest := by
  induction es with
  | nil => exact .inl ⟨by simp, Lexes.nil⟩
  | cons e es ih =>
    obtain ⟨he, hes⟩ := List.forall_mem_cons.mp h
    cases es with
    | nil => exact (he rest hrest).congr (by simp)
    | cons next es =>
      have hfirst := he _ (.comma (' ' :: (writeAll (nameIn r) (next :: es) ++ rest)))
      exact ((hfirst.before Lexes.comma).append (ih hes)).congr List.forall_mem_cons.symm

/-- A choice or a call: a name, and arguments in parentheses after it. -/
theorem lexesBack_call {name : String} {args : List Expr} {whole : Expr} {p : Prop}
    (hname : ∀ rest, LexesIf p name.toList [.identifier name] ('(' :: rest))
    (hargs : ∀ e ∈ args, e.LexesBack r)
    (hwords : whole.CallsWords ↔ p ∧ ∀ e ∈ args, e.CallsWords)
    (hwrite : whole.write (nameIn r) =
      name.toList ++ ['('] ++ writeAll (nameIn r) args ++ [')'])
    (hkinds : whole.kinds (nameIn r) =
      [.identifier name] ++ [.leftParen] ++ kindsAll (nameIn r) args ++ [.rightParen]) :
    whole.LexesBack r := by
  intro rest hrest
  have hopen := (hname ((writeAll (nameIn r) args ++ [')']) ++ rest)).before Lexes.leftParen
  have hclose := (lexesIf_writeAll hargs (.close rest)).before Lexes.rightParen
  rw [hwrite, hkinds]
  refine LexesIf.congr ?_ hwords.symm
  simpa using hopen.append hclose

variable {e : Expr}

/-- A node whose own characters are read as its tokens, if the name of a call can be read at
all. -/
def NodeLexes (r : Resolver) : Expr → Prop
  | .literal value => value.IsExpressible
  | .field f => r.Names f
  | .lookup link f => r.Follows link f
  | .call name _ =>
    ∀ rest, LexesIf (IsWord name.toList) name.toList [.identifier name] ('(' :: rest)
  | _ => True

theorem NodeFits.nodeLexes (h : e.NodeFits r) : e.NodeLexes r := by
  cases e with
  | literal value => exact Value.IsLiteral.isExpressible h
  | call name args => exact fun _ => lexesIf_name h.1
  | _ => exact h

theorem lexesBack_of_nodes (e : Expr) (h : ∀ x ∈ e.nodes, x.NodeLexes r) : e.LexesBack r := by
  induction e with
  | literal value => exact lexesBack_literal (h _ (self_mem_nodes _))
  | field f => exact lexesBack_field (h _ (self_mem_nodes _))
  | lookup link f => exact lexesBack_lookup (h _ (self_mem_nodes _))
  | negate operand ih => exact (ih (forall_nodes_negate.mp h).2).negate
  | binary op left right ihleft ihright =>
    obtain ⟨-, hleft, hright⟩ := forall_nodes_binary.mp h
    exact (ihleft hleft).binary (ihright hright)
  | ifThen condition yes ihcondition ihyes =>
    obtain ⟨-, hcondition, hyes⟩ := forall_nodes_ifThen.mp h
    have hargs : ∀ e ∈ [condition, yes], e.LexesBack r := by
      simp [ihcondition hcondition, ihyes hyes]
    refine lexesBack_call (fun _ => lexesIf_if) hargs ?_ ?_ ?_
    · simp [callsWords_ifThen]
    · show "IF(".toList ++ write (nameIn r) condition ++ [',', ' '] ++ write (nameIn r) yes ++
        [')'] = _ ++ (write (nameIn r) condition ++ [',', ' '] ++ write (nameIn r) yes) ++ [')']
      simp
    · simp [kinds, kindsAll]
  | ifThenElse condition yes no ihcondition ihyes ihno =>
    obtain ⟨-, hcondition, hyes, hno⟩ := forall_nodes_ifThenElse.mp h
    have hargs : ∀ e ∈ [condition, yes, no], e.LexesBack r := by
      simp [ihcondition hcondition, ihyes hyes, ihno hno]
    refine lexesBack_call (fun _ => lexesIf_if) hargs ?_ ?_ ?_
    · simp [callsWords_ifThenElse]
    · show "IF(".toList ++ write (nameIn r) condition ++ [',', ' '] ++ write (nameIn r) yes ++
        [',', ' '] ++ write (nameIn r) no ++ [')'] = _ ++ (write (nameIn r) condition ++
          [',', ' '] ++ (write (nameIn r) yes ++ [',', ' '] ++ write (nameIn r) no)) ++ [')']
      simp
    · simp [kinds, kindsAll]
  | call name args ih =>
    obtain ⟨hname, hargs⟩ := forall_nodes_call.mp h
    exact lexesBack_call hname (fun e he => ih e he (hargs e he)) callsWords_call rfl rfl

theorem lexesBack_of_fits (e : Expr) (h : e.Fits r) : e.LexesBack r :=
  lexesBack_of_nodes e fun x hx => (h x hx).nodeLexes

/-- A tree of which all calls have words for names is read from its characters. -/
theorem exists_tokens (h : ∀ x ∈ e.nodes, x.NodeLexes r) (hwords : e.CallsWords) :
    ∃ tokens after, tokens.map Token.kind = e.kinds (nameIn r) ∧
      tokenize (e.toSource r) = .ok (tokens ++ [⟨.eof, "", after⟩]) := by
  rcases lexesBack_of_nodes e h [] .nil with ⟨-, hlex⟩ | ⟨hnot, -⟩
  · obtain ⟨tokens, after, hkinds, hread⟩ := hlex 0
    rw [List.append_nil] at hread
    refine ⟨tokens, after, hkinds, ?_⟩
    rw [tokenize, toSource, String.toList_ofList, hread, Token.tokensFrom]
    rfl
  · exact absurd hwords hnot

end Expr

end ComputedFields
