import ComputedFields.Proofs.Formula.Grammar
import Mathlib

/-!
# What the parser accepts

The parser makes no tree that the grammar does not derive from the tokens that it takes. So each of
its trees can be printed but for the names of its calls, and is within the limits, as the nesting of
its tokens is.
-/

namespace ComputedFields

namespace Token

variable {c : Char} {cs : List Char} {kind : TokenKind}

/-! ## Tokens of any source -/

/-- What the lexer makes before the end of the source: numbers without sign, and names that are
words. -/
def Plain : TokenKind → Prop
  | .number n => n.negative = false
  | .identifier name => IsWord name.toList
  | .eof => False
  | _ => True

theorem plain_of_single? (h : single? c = some kind) : Plain kind := by
  unfold single? at h
  split at h <;> cases h <;> trivial

theorem plain_of_scanText {extra : Nat} (h : scanText c cs = .ok (kind, extra)) : Plain kind := by
  rw [scanText] at h
  split at h <;> cases h
  trivial

theorem plain_of_scanField {extra : Nat} (h : scanField cs = .ok (kind, extra)) : Plain kind := by
  rw [scanField] at h
  split at h
  · split at h <;> cases h
    trivial
  · cases h

theorem plain_of_scanNumber {extra : Nat} (hsign : cs.head? ≠ some '-')
    (h : scanNumber cs = .ok (kind, extra)) : Plain kind := by
  have hlexeme : (cs.take (numberLength cs).1).head? ≠ some '-' := by
    rw [List.head?_take]
    split <;> simp [hsign]
  rw [scanNumber] at h
  dsimp only at h
  split at h
  · rename_i n hread
    cases h
    split at hread
    · exact Decimal.negative_of_readScientific? hread hlexeme
    · exact Decimal.negative_of_ofChars? hread hlexeme
  · cases h

theorem plain_of_scanWord (hc : startsWord c = true) : Plain (scanWord (c :: cs)).1 := by
  have hword : IsWord ((c :: cs).takeWhile continuesWord) := by
    rw [List.takeWhile_cons_of_pos (Text.continuesWord_of_startsWord hc)]
    exact ⟨c, _, rfl, hc, fun x hx => List.mem_takeWhile_imp hx⟩
  rw [scanWord]
  dsimp only
  split
  · trivial
  · split
    · trivial
    · show IsWord (String.ofList _).toList
      rwa [String.toList_ofList]

theorem plain_of_scan {extra : Nat} (h : scan c cs = .ok (kind, extra)) : Plain kind := by
  -- one case for each kind of first character, in the order of the lexer
  rw [scan] at h
  split at h
  · rename_i hsingle
    cases h
    exact plain_of_single? hsingle
  rename_i hsingle
  split at h
  · split at h <;> cases h
    trivial
  split at h
  · split at h
    · cases h
      trivial
    · split at h <;> cases h <;> trivial
  split at h
  · split at h <;> cases h <;> trivial
  split at h
  · exact plain_of_scanText h
  split at h
  · exact plain_of_scanField h
  split at h
  · refine plain_of_scanNumber ?_ h
    rw [List.head?_cons]
    intro hc
    cases hc
    cases hsingle
  split at h
  · cases h
    trivial
  split at h
  · rename_i hword
    cases h
    exact plain_of_scanWord hword
  · cases h

/-- The tokens of every source are plain up to the mark of its end, which comes last. -/
theorem plain_of_tokensFrom {offset : Nat} {cs : List Char} {tokens : List Token}
    (h : tokensFrom offset cs = .ok tokens) : ∃ before last, tokens = before ++ [last] ∧
      last.kind = .eof ∧ ∀ t ∈ before, Plain t.kind := by
  fun_induction tokensFrom offset cs generalizing tokens with
  | case1 offset =>
    cases h
    exact ⟨[], _, rfl, rfl, by simp⟩
  | case2 offset c cs hblank ih => exact ih h
  | case3 => cases h
  | case4 => cases h
  | case5 offset c cs hblank kind extra hscan lexeme tokens' hrest =>
    rename_i ih
    cases h
    obtain ⟨before, last, rfl, hlast, hbefore⟩ := ih hrest
    exact ⟨_ :: before, last, rfl, hlast, List.forall_mem_cons.mpr ⟨plain_of_scan hscan, hbefore⟩⟩

/-- The mark of the end is found nowhere but at the end. -/
theorem eq_of_eof {before taken rest : List Token} {last token : Token}
    (hbefore : ∀ t ∈ before, Plain t.kind) (htoken : token.kind = .eof)
    (h : before ++ [last] = taken ++ token :: rest) : taken = before ∧ rest = [] := by
  induction before generalizing taken with
  | nil =>
    cases taken with
    | nil =>
      cases h
      exact ⟨rfl, rfl⟩
    | cons t taken => simp at h
  | cons t before ih =>
    obtain ⟨ht, hrest⟩ := List.forall_mem_cons.mp hbefore
    cases taken with
    | nil =>
      cases h
      rw [htoken] at ht
      exact ht.elim
    | cons t' taken =>
      obtain ⟨rfl, hmore⟩ := List.cons.inj h
      obtain ⟨rfl, hnil⟩ := ih hrest hmore
      exact ⟨rfl, hnil⟩

end Token

/-! ## Trees that the grammar derives -/

variable {r : Resolver} {k : Nat} {kinds : List TokenKind} {e : Expr}

theorem Expr.Fits.leaf (hnode : e.NodeFits r) (hnodes : e.nodes = [e]) : e.Fits r := by
  intro x hx
  rw [hnodes, List.mem_singleton] at hx
  rwa [hx]

theorem CallTree.fits {name : String} {args : List Expr} (h : CallTree name args e)
    (hname : Token.IsWord name.toList) (hargs : ∀ e ∈ args, e.Fits r) : e.Fits r := by
  cases h with
  | ifThen => exact Expr.fits_ifThen.mpr ⟨hargs _ (by simp), hargs _ (by simp)⟩
  | ifThenElse =>
    exact Expr.fits_ifThenElse.mpr ⟨hargs _ (by simp), hargs _ (by simp), hargs _ (by simp)⟩
  | call hchoice => exact Expr.fits_call.mpr ⟨⟨⟨name, hname, rfl⟩, hchoice⟩, hargs⟩

theorem isLiteral_of_literalOf {kind : TokenKind} {value : Value}
    (h : Parser.literalOf kind = some value) (hplain : Token.Plain kind) : value.IsLiteral := by
  cases kind with
  | number n =>
    cases h
    have hn : n.negative = false := hplain
    simp [Value.IsLiteral, Decimal.signed, hn]
  | text | boolean =>
    cases h
    trivial
  | _ => cases h

/-- What plain tokens stand for can be printed but for the names of calls. -/
theorem Derives.fits (h : Derives r k kinds e) (hr : r.Faithful)
    (hplain : ∀ kind ∈ kinds, Token.Plain kind) : e.Fits r := by
  induction h with
  | looser _ ih => exact ih hplain
  | binary _ _ iha ihb =>
    exact Expr.fits_binary.mpr
      ⟨iha fun t ht => hplain t (by simp [ht]), ihb fun t ht => hplain t (by simp [ht])⟩
  | negate _ ih => exact Expr.fits_negate.mpr (ih fun t ht => hplain t (by simp [ht]))
  | literal h =>
    exact .leaf (isLiteral_of_literalOf h (hplain _ (by simp))) (by rw [Expr.nodes])
  | field h => exact .leaf (hr.names h) (by rw [Expr.nodes])
  | lookup h hlink hf => exact .leaf (hr.follows h hlink hf) (by rw [Expr.nodes])
  | @call name args e _ he ih =>
    refine he.fits (hplain (.identifier name) (by simp)) fun e hmem => ?_
    obtain ⟨arg, harg, rfl⟩ := List.mem_map.mp hmem
    refine ih arg harg fun t ht => hplain t ?_
    simp [(sublist_intercalate harg).subset ht]
  | parens _ ih => exact ih fun t ht => hplain t (by simp [ht])

/-! ## Trees that the parser makes -/

namespace Parser

open ComputedFields.Expr (nodeCountAll)
open Token (operatorKind)

variable {ctx : Context}

/-- The tokens stand for a tree, and are nested no deeper than the limit from `n` on. -/
def Admits (ctx : Context) (n strength : Nat) (kinds : List TokenKind) (e : Expr) : Prop :=
  Derives ctx.resolver strength kinds e ∧ n + height kinds ≤ ctx.limits.maxDepth

/-- A reader takes tokens that stand for its tree, and counts the nodes of the tree, within the
limits. -/
structure Accepts (ctx : Context) (n strength : Nat) (tokens : List Token) (nodes : Nat) (e : Expr)
    (made : Nat) (rest : List Token) : Prop where
  admits : ∃ taken, tokens = taken ++ rest ∧ Admits ctx n strength (taken.map Token.kind) e
  made_eq : made = nodes + e.nodeCount
  within : made ≤ ctx.limits.maxNodes

/-- The same of arguments. -/
structure AcceptsAll (ctx : Context) (n : Nat) (tokens : List Token) (nodes : Nat) (es : List Expr)
    (made : Nat) (rest : List Token) : Prop where
  admits : ∃ taken parts, tokens = taken ++ rest ∧ parts ≠ [] ∧
    taken.map Token.kind = [TokenKind.comma].intercalate (parts.map Prod.fst) ∧
    parts.map Prod.snd = es ∧ ∀ part ∈ parts, Admits ctx n 0 part.1 part.2
  made_eq : made = nodes + nodeCountAll es
  within : made ≤ ctx.limits.maxNodes

section

variable {n strength strength' : Nat} {kind : TokenKind} {kinds left right : List TokenKind}
  {e a b : Expr}

theorem Admits.mono (h : Admits ctx n strength kinds e) (hle : strength' ≤ strength) :
    Admits ctx n strength' kinds e :=
  ⟨h.1.mono hle, h.2⟩

theorem Accepts.mono {nodes made : Nat} {tokens rest : List Token}
    (h : Accepts ctx n strength tokens nodes e made rest) (hle : strength' ≤ strength) :
    Accepts ctx n strength' tokens nodes e made rest := by
  obtain ⟨⟨taken, htaken, hadmits⟩, hmade, hwithin⟩ := h
  exact ⟨⟨taken, htaken, hadmits.mono hle⟩, hmade, hwithin⟩

/-- An operand that is not nested any deeper. -/
theorem Admits.leaf (hn : n ≤ ctx.limits.maxDepth) (h : Derives ctx.resolver strength kinds e)
    (hnests : Nests strength kinds 0) : Admits ctx n strength kinds e :=
  ⟨h, by rwa [hnests.height_eq]⟩

theorem Admits.binary {op : BinaryOperator} (ha : Admits ctx n op.level.rank left a)
    (hkind : kind = operatorKind op) (hb : Admits ctx n (op.level.rank + 1) right b) :
    Admits ctx n op.level.rank (left ++ kind :: right) (.binary op a b) := by
  obtain ⟨ha, haDepth⟩ := ha
  obtain ⟨hb, hbDepth⟩ := hb
  subst hkind
  refine ⟨ha.binary hb, ?_⟩
  rw [height_binary ha hb]
  omega

theorem Admits.negate (h : Admits ctx (n + 1) 4 kinds e) :
    Admits ctx n 4 (.minus :: kinds) (.negate e) := by
  obtain ⟨h, hdepth⟩ := h
  refine ⟨h.negate, ?_⟩
  rw [h.nests.negate.height_eq]
  omega

theorem Admits.parens (h : Admits ctx (n + 1) 0 kinds e) :
    Admits ctx n 5 (.leftParen :: (kinds ++ [.rightParen])) e := by
  obtain ⟨h, hdepth⟩ := h
  refine ⟨h.parens, ?_⟩
  rw [(h.nests.parens (k := 5)).height_eq]
  omega

theorem Admits.call (name : String) (parts : List (List TokenKind × Expr))
    (hn : n ≤ ctx.limits.maxDepth) (h : ∀ part ∈ parts, Admits ctx (n + 1) 0 part.1 part.2) :
    Admits ctx n 5 (.identifier name :: .leftParen ::
      ([TokenKind.comma].intercalate (parts.map Prod.fst) ++ [.rightParen]))
      (.ofCall name (parts.map Prod.snd)) := by
  have hparts : ∀ part ∈ parts, Derives ctx.resolver 0 part.1 part.2 :=
    fun part hpart => (h part hpart).1
  refine ⟨.call hparts (callTree_ofCall name _), Nat.add_le_of_le_sub' hn ?_⟩
  refine (height_call_le hparts).mpr fun part hpart => ?_
  have hdepth := (h part hpart).2
  omega

end

theorem eq_of_operator? {level : Level} {kind : TokenKind} {op : BinaryOperator}
    (h : level.operator? kind = some op) : kind = operatorKind op ∧ op.level = level := by
  unfold Level.operator? at h
  split at h <;> cases h <;> exact ⟨rfl, rfl⟩

theorem accepts_literal {n nodes made : Nat} {value : Value} {e : Expr} {token : Token}
    {tokens rest : List Token} (hn : n ≤ ctx.limits.maxDepth)
    (hvalue : literalOf token.kind = some value)
    (h : Reads (primary ctx n nodes (token :: tokens)) e made rest) :
    Accepts ctx n 5 (token :: tokens) nodes e made rest := by
  obtain ⟨hwithin, rfl, rfl, rfl⟩ := (reads_primary_literal hvalue).mp h
  exact ⟨⟨[token], rfl, .leaf hn (.literal hvalue) (nests_literal hvalue)⟩, by rw [Expr.nodeCount],
    hwithin⟩

theorem accepts_field {name lexeme : String} {offset n nodes made : Nat} {e : Expr}
    {tokens rest : List Token} (hn : n ≤ ctx.limits.maxDepth)
    (h : Reads (primary ctx n nodes (⟨.field name, lexeme, offset⟩ :: tokens)) e made rest) :
    Accepts ctx n 5 (⟨.field name, lexeme, offset⟩ :: tokens) nodes e made rest := by
  obtain ⟨hwithin, rfl, f, hresolve, ⟨-, rfl, rfl⟩ |
    ⟨⟨kind, lexeme₁, offset₁⟩, name', lexeme', offset', remote, rfl, rfl, hlink, hremote, rfl⟩⟩ :=
      reads_primary_field.mp h
  · exact ⟨⟨[_], rfl, .leaf hn (.field hresolve) nests_field⟩, by rw [Expr.nodeCount], hwithin⟩
  · exact ⟨⟨[_, _, _], rfl, .leaf hn (.lookup hresolve hlink hremote) nests_lookup⟩,
      by rw [Expr.nodeCount], hwithin⟩

mutual

theorem accepts_expression {n nodes made : Nat} {e : Expr} {tokens rest : List Token}
    (h : Reads (expression ctx n nodes tokens) e made rest) :
    Accepts ctx (n + 1) 0 tokens nodes e made rest := by
  obtain ⟨hn, hchain⟩ := reads_expression.mp h
  exact accepts_chain hn hchain
termination_by 16 * tokens.length + 12

theorem accepts_chain {n nodes made : Nat} {level : Level} {e : Expr} {tokens rest : List Token}
    (hn : n ≤ ctx.limits.maxDepth) (h : Reads (chain ctx n nodes level tokens) e made rest) :
    Accepts ctx n level.rank tokens nodes e made rest := by
  obtain ⟨first, mid, after, hfirst, hwhole⟩ := reads_chain.mp h
  have hlt := hfirst.length_lt
  have hle := level.rank_le
  obtain ⟨⟨before, rfl, hbefore⟩, hmid, hwithin⟩ := accepts_operand hn hfirst
  obtain ⟨⟨taken, rfl, hadmits⟩, hmade, hwithin⟩ :=
    accepts_chainRest hn (hbefore.mono (Nat.le_succ _)) hwithin hwhole
  refine ⟨⟨before ++ taken, by rw [List.append_assoc], ?_⟩, by omega, hwithin⟩
  rwa [List.map_append]
termination_by 16 * tokens.length + (11 - 2 * level.rank)

theorem accepts_operand {n nodes made : Nat} {level : Level} {e : Expr} {tokens rest : List Token}
    (hn : n ≤ ctx.limits.maxDepth) (h : Reads (operand ctx n nodes level tokens) e made rest) :
    Accepts ctx n (level.rank + 1) tokens nodes e made rest := by
  have hle := level.rank_le
  cases hnext : level.tighter? with
  | some next =>
    have hrank := Level.rank_tighter hnext
    have hle' := next.rank_le
    rw [operand_of_tighter hnext] at h
    rw [← hrank]
    exact accepts_chain hn h
  | none =>
    rw [operand_tightest hnext] at h
    exact (accepts_unary hn h).mono (by omega)
termination_by 16 * tokens.length + (10 - 2 * level.rank)

/-- The operators of a level and their right operands are taken together with what is on their
left. -/
theorem accepts_chainRest {n nodes made : Nat} {level : Level} {left e : Expr}
    {before : List TokenKind} {tokens rest : List Token} (hn : n ≤ ctx.limits.maxDepth)
    (hleft : Admits ctx n level.rank before left) (hnodes : nodes ≤ ctx.limits.maxNodes)
    (h : Reads (chainRest ctx n nodes level left tokens) e made rest) :
    (∃ taken, tokens = taken ++ rest ∧
      Admits ctx n level.rank (before ++ taken.map Token.kind) e) ∧
      made + left.nodeCount = nodes + e.nodeCount ∧ made ≤ ctx.limits.maxNodes := by
  by_cases hstop : ∀ t ∈ tokens.head?, level.operator? t.kind = none
  · obtain ⟨rfl, rfl, rfl⟩ := (reads_chainRest_stop hstop).mp h
    exact ⟨⟨[], rfl, by rwa [List.map_nil, List.append_nil]⟩, rfl, hnodes⟩
  · cases tokens with
    | nil => exact absurd (by simp) hstop
    | cons token tokens =>
      cases hop : level.operator? token.kind with
      | none => exact absurd (fun t ht => by cases ht; exact hop) hstop
      | some op =>
        obtain ⟨right, mid, after, hright, hwithin, hwhole⟩ := (reads_chainRest_cons hop).mp h
        have hlt := hright.length_lt
        have hcons : (token :: tokens).length = tokens.length + 1 := rfl
        obtain ⟨hkind, rfl⟩ := eq_of_operator? hop
        obtain ⟨⟨operand, rfl, hoperand⟩, hmid, -⟩ := accepts_operand hn hright
        obtain ⟨⟨taken, rfl, hadmits⟩, hmade, hwithin'⟩ :=
          accepts_chainRest hn (hleft.binary hkind hoperand) hwithin hwhole
        rw [Expr.nodeCount] at hmade
        refine ⟨⟨token :: (operand ++ taken), by simp, ?_⟩, by omega, hwithin'⟩
        simpa using hadmits
termination_by 16 * tokens.length + 0

theorem accepts_unary {n nodes made : Nat} {e : Expr} {tokens rest : List Token}
    (hn : n ≤ ctx.limits.maxDepth) (h : Reads (unary ctx n nodes tokens) e made rest) :
    Accepts ctx n 4 tokens nodes e made rest := by
  cases tokens with
  | nil =>
    rw [unary_eq_primary (by simp)] at h
    exact (accepts_primary hn h).mono (by decide)
  | cons token tokens =>
    obtain ⟨kind, lexeme, offset⟩ := token
    by_cases hkind : kind = .minus
    · subst hkind
      obtain ⟨hdeeper, inner, mid, hinner, hwithin, rfl, rfl⟩ := reads_unary_minus.mp h
      obtain ⟨⟨taken, rfl, hadmits⟩, hmid, -⟩ := accepts_unary hdeeper hinner
      exact ⟨⟨_ :: taken, rfl, hadmits.negate⟩, by rw [Expr.nodeCount]; omega, hwithin⟩
    · rw [unary_eq_primary (by simpa using hkind)] at h
      exact (accepts_primary hn h).mono (by decide)
termination_by 16 * tokens.length + 2

theorem accepts_primary {n nodes made : Nat} {e : Expr} {tokens rest : List Token}
    (hn : n ≤ ctx.limits.maxDepth) (h : Reads (primary ctx n nodes tokens) e made rest) :
    Accepts ctx n 5 tokens nodes e made rest := by
  cases tokens with
  | nil =>
    unfold primary at h
    exact (not_reads_error h).elim
  | cons token tokens =>
    obtain ⟨kind, lexeme, offset⟩ := token
    cases kind with
    | number | text | boolean => exact accepts_literal hn rfl h
    | field name => exact accepts_field hn h
    | leftParen =>
      obtain ⟨lexeme', offset', hinner⟩ := reads_primary_paren.mp h
      obtain ⟨⟨taken, rfl, hadmits⟩, hmade, hwithin⟩ := accepts_expression hinner
      have hparens := hadmits.parens
      exact ⟨⟨⟨.leftParen, lexeme, offset⟩ :: (taken ++ [⟨.rightParen, lexeme', offset'⟩]),
        by simp, by simpa using hparens⟩, hmade, hwithin⟩
    | identifier name =>
      obtain ⟨opening, inside, close, rfl, hopen, hclose, ⟨rfl, hwithin, rfl, rfl⟩ |
        ⟨args, mid, hargs, hwithin, rfl, rfl⟩⟩ := call_of_reads_primary h
      · have hcall : Admits ctx n 5 _ (.ofCall name []) := .call name [] hn (by simp)
        refine ⟨⟨[_, opening, close], rfl, ?_⟩, by rw [(callTree_ofCall name []).nodeCount_eq]; rfl,
          hwithin⟩
        simpa [hopen, hclose] using hcall
      · obtain ⟨⟨taken, parts, rfl, -, htaken, rfl, hparts⟩, hmid, -⟩ := accepts_arguments hargs
        have hcall := Admits.call name parts hn hparts
        rw [← htaken] at hcall
        refine ⟨⟨⟨.identifier name, lexeme, offset⟩ :: opening :: (taken ++ [close]), by simp, ?_⟩,
          by rw [(callTree_ofCall name _).nodeCount_eq]; omega, hwithin⟩
        simpa [hopen, hclose] using hcall
    | _ =>
      unfold primary at h
      exact (not_reads_error h).elim
termination_by 16 * tokens.length + 1

theorem accepts_arguments {n nodes made : Nat} {es : List Expr} {tokens rest : List Token}
    (h : Reads (arguments ctx n nodes tokens) es made rest) :
    AcceptsAll ctx (n + 1) tokens nodes es made rest := by
  obtain ⟨first, mid, after, hfirst, hmore⟩ := reads_arguments.mp h
  have hlt := hfirst.length_lt
  obtain ⟨⟨before, rfl, hbefore⟩, hmid, hwithin⟩ := accepts_expression hfirst
  rcases hmore with ⟨comma, tail, more, rfl, hcomma, rfl, hmore⟩ | ⟨-, rfl, rfl, rfl⟩
  · obtain ⟨⟨taken, parts, rfl, hne, htaken, rfl, hparts⟩, hmade, hwithin⟩ :=
      accepts_arguments hmore
    refine ⟨⟨before ++ comma :: taken, (before.map Token.kind, first) :: parts, by simp, by simp,
      ?_, rfl, List.forall_mem_cons.mpr ⟨hbefore, hparts⟩⟩, by rw [nodeCountAll]; omega, hwithin⟩
    rw [List.map_cons, List.intercalate_cons_of_ne_nil (by simpa using hne), ← htaken]
    simp [hcomma]
  · refine ⟨⟨before, [(before.map Token.kind, first)], rfl, by simp, by simp, rfl, ?_⟩,
      by simp [nodeCountAll, hmid], hwithin⟩
    simpa using hbefore
termination_by 16 * tokens.length + 13

end

/-- A formula that is accepted has tokens that stand for its tree, up to the end, and both are
within the limits. -/
theorem admits_of_wholeFormula {e : Expr} {tokens : List Token}
    (h : wholeFormula ctx tokens = .ok e) :
    (∃ taken last rest, tokens = taken ++ last :: rest ∧ last.kind = .eof ∧
      Admits ctx 1 0 (taken.map Token.kind) e) ∧
      e.depth ≤ ctx.limits.maxDepth ∧ e.nodeCount ≤ ctx.limits.maxNodes := by
  obtain ⟨made, last, rest, hread, hlast, hdepth⟩ := wholeFormula_eq_ok.mp h
  obtain ⟨⟨taken, rfl, hadmits⟩, hmade, hwithin⟩ := accepts_expression hread
  exact ⟨⟨taken, last, rest, rfl, hlast, hadmits⟩, hdepth, by omega⟩

/-- A formula that is accepted has tokens that stand for its tree, up to the end. -/
theorem derives_of_wholeFormula {e : Expr} {tokens : List Token}
    (h : wholeFormula ctx tokens = .ok e) :
    (∃ taken last rest, tokens = taken ++ last :: rest ∧ last.kind = .eof ∧
      Derives ctx.resolver 0 (taken.map Token.kind) e) ∧
      e.depth ≤ ctx.limits.maxDepth ∧ e.nodeCount ≤ ctx.limits.maxNodes := by
  obtain ⟨⟨taken, last, rest, htokens, hlast, hadmits⟩, hwithin⟩ := admits_of_wholeFormula h
  exact ⟨⟨taken, last, rest, htokens, hlast, hadmits.1⟩, hwithin⟩

end Parser

/-- What is accepted can be printed but for the names of calls, and is within the limits. -/
theorem Expr.fits_of_parse {limits : Limits} {source : String} (hr : r.Faithful)
    (h : Expr.parse r limits source = .ok e) :
    e.Fits r ∧ e.depth ≤ limits.maxDepth ∧ e.nodeCount ≤ limits.maxNodes := by
  obtain ⟨tokens, htokens, h⟩ := bind_eq_ok.mp h
  obtain ⟨before, last, rfl, -, hbefore⟩ := Token.plain_of_tokensFrom htokens
  obtain ⟨⟨taken, last', rest, htaken, hlast, hderives⟩, hwithin⟩ :=
    Parser.derives_of_wholeFormula h
  obtain ⟨rfl, rfl⟩ := Token.eq_of_eof hbefore hlast htaken
  refine ⟨hderives.fits hr fun kind hkind => ?_, hwithin⟩
  obtain ⟨t, ht, rfl⟩ := List.mem_map.mp hkind
  exact hbefore t ht

/-! ## Formulas -/

/-- Tokens of a source text stand for a tree: all of them, up to the mark of the end. -/
def Formula.Derived (r : Resolver) (tokens : List Token) (e : Expr) : Prop :=
  ∃ kinds, tokens.map Token.kind = kinds ++ [.eof] ∧ Derives r 0 kinds e

/-- The parser accepts just what the grammar derives, and makes the only tree that the tokens stand
for, if the limits are no less than the number of tokens. -/
theorem Expr.parse_iff_derived {limits : Limits} {source : String} {tokens : List Token}
    (htokens : tokenize source = .ok tokens) (hdepth : tokens.length ≤ limits.maxDepth)
    (hcount : tokens.length ≤ limits.maxNodes) :
    Expr.parse r limits source = .ok e ↔
      Formula.Derived r tokens e ∧ ∀ e', Formula.Derived r tokens e' → e' = e := by
  obtain ⟨before, last, rfl, hlast, hbefore⟩ := Token.plain_of_tokensFrom htokens
  rw [Expr.parse, htokens]
  show Parser.wholeFormula ⟨r, limits⟩ (before ++ [last]) = .ok e ↔ _
  constructor
  · intro h
    obtain ⟨⟨taken, last', rest, htaken, hlast', hderives⟩, -⟩ := Parser.derives_of_wholeFormula h
    obtain ⟨rfl, rfl⟩ := Token.eq_of_eof hbefore hlast' htaken
    have hkinds : (taken ++ [last]).map Token.kind = taken.map Token.kind ++ [.eof] := by
      simp [hlast]
    refine ⟨⟨_, hkinds, hderives⟩, ?_⟩
    rintro e' ⟨kinds, hkinds', hderives'⟩
    cases List.append_cancel_right (hkinds'.symm.trans hkinds)
    exact hderives.unique hderives'
  · rintro ⟨⟨kinds, hkinds, hderives⟩, -⟩
    have hbeforeKinds : before.map Token.kind = kinds := by
      simpa [hlast] using hkinds
    have hlength : (before ++ [last]).length = kinds.length + 1 := by
      simp [← hbeforeKinds]
    have hread : Parser.Reads (Parser.expression ⟨r, limits⟩ 0 0 (before ++ [last])) e _ [last] :=
      hderives.reads_expression hbeforeKinds (by omega) (by omega) (Parser.ends_eof hlast)
    have hnodes := hderives.nodeCount_le
    have hle := e.depth_le_nodeCount
    exact Parser.wholeFormula_eq_ok.mpr ⟨_, last, [], hread, hlast, by dsimp only; omega⟩

/-- The tokens of a difference of differences. -/
def differenceTokens : List Token :=
  [⟨.number .one, "1", 0⟩, ⟨.minus, "-", 1⟩, ⟨.number .one, "1", 2⟩, ⟨.minus, "-", 3⟩,
    ⟨.number .one, "1", 4⟩, ⟨.eof, "", 5⟩]

/-- The tree of a number less the same number. -/
def oneLess (e : Expr) : Expr := .binary .subtract e (.literal (.number .one))

theorem Expr.parse_difference :
    tokenize "1-1-1" = .ok differenceTokens ∧ differenceTokens.length ≤ 6 ∧
      Formula.Derived ⟨fun _ => none, fun _ => false, fun _ _ => none, fun _ => none⟩
        differenceTokens (oneLess (oneLess (.literal (.number .one)))) ∧
      ∀ e', Formula.Derived ⟨fun _ => none, fun _ => false, fun _ _ => none, fun _ => none⟩
        differenceTokens e' → e' = oneLess (oneLess (.literal (.number .one))) := by
  have htokens : tokenize "1-1-1" = .ok differenceTokens := by cbv
  have hparse : Expr.parse ⟨fun _ => none, fun _ => false, fun _ _ => none, fun _ => none⟩ ⟨6, 6⟩
      "1-1-1" = .ok (oneLess (oneLess (.literal (.number .one)))) := by cbv
  exact ⟨htokens, Nat.le_refl _,
    (parse_iff_derived htokens (Nat.le_refl _) (Nat.le_refl _)).mp hparse⟩

end ComputedFields
