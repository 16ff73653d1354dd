import ComputedFields.Formula.Parser
import ComputedFields.Proofs.Except

/-!
# What the readers of the parser do

One equivalence for each reader: it succeeds just if its parts do, within the limits.
-/

namespace ComputedFields.Parser

variable {ctx : Context} {nesting nodes made : Nat} {level : Level} {left e : Expr}
  {es : List Expr} {name lexeme lexeme' : String} {offset offset' : Nat}
  {token : Token} {tokens rest : List Token}

/-- A reader succeeds with a result, a number of nodes and the tokens that are left. -/
def Reads {α : Type} {bound : Nat} (read : Except FormulaError (Taken α bound)) (result : α)
    (made : Nat) (rest : List Token) : Prop :=
  ∃ h, read = .ok ⟨result, made, rest, h⟩

theorem Reads.unique {α : Type} {bound made' : Nat} {read : Except FormulaError (Taken α bound)}
    {result result' : α} {rest' : List Token} (h : Reads read result made rest)
    (h' : Reads read result' made' rest') : result = result' := by
  obtain ⟨_, hok⟩ := h
  obtain ⟨_, hok'⟩ := h'
  cases hok.symm.trans hok'
  rfl

theorem Reads.length_lt {α : Type} {bound : Nat} {read : Except FormulaError (Taken α bound)}
    {result : α} (h : Reads read result made rest) : rest.length < bound := h.1

/-! ## Steps that can fail -/

theorem reads_bind {α β : Type} {bound bound' : Nat} {x : Except FormulaError (Taken α bound)}
    {f : Taken α bound → Except FormulaError (Taken β bound')} {result : β} :
    Reads (x >>= f) result made rest ↔ ∃ first mid left h, Reads x first mid left ∧
      Reads (f ⟨first, mid, left, h⟩) result made rest := by
  constructor
  · rintro ⟨h, hok⟩
    obtain ⟨⟨first, mid, left, hlt⟩, hx, hf⟩ := bind_eq_ok.mp hok
    exact ⟨first, mid, left, hlt, ⟨hlt, hx⟩, h, hf⟩
  · rintro ⟨first, mid, left, hlt, ⟨hlt', hx⟩, h, hf⟩
    exact ⟨h, bind_eq_ok.mpr ⟨_, hx, hf⟩⟩

theorem reads_ok {α : Type} {bound count : Nat} {result result' : α} {left : List Token}
    {h : left.length < bound} :
    Reads (.ok ⟨result', count, left, h⟩ : Except FormulaError (Taken α bound)) result made rest ↔
      result = result' ∧ made = count ∧ rest = left := by
  constructor
  · rintro ⟨h, hok⟩
    cases hok
    exact ⟨rfl, rfl, rfl⟩
  · rintro ⟨rfl, rfl, rfl⟩
    exact ⟨h, rfl⟩

theorem not_reads_error {α : Type} {bound : Nat} {err : FormulaError} {result : α} :
    ¬ Reads (.error err : Except FormulaError (Taken α bound)) result made rest := by
  rintro ⟨h, hok⟩
  cases hok

/-- Counting a node succeeds within the limit. -/
theorem reads_countNode {α : Type} {bound : Nat}
    {f : Nat → Except FormulaError (Taken α bound)} {result : α} :
    Reads (countNode ctx nodes >>= f) result made rest ↔
      nodes + 1 ≤ ctx.limits.maxNodes ∧ Reads (f (nodes + 1)) result made rest := by
  rw [countNode]
  split
  · rename_i hover
    exact iff_of_false not_reads_error (fun h => Nat.not_le_of_lt hover h.1)
  · rename_i hwithin
    exact ⟨fun h => ⟨Nat.le_of_not_lt hwithin, h⟩, And.right⟩

/-- Going deeper succeeds within the limit. -/
theorem reads_enter {α : Type} {bound : Nat}
    {f : Nat → Except FormulaError (Taken α bound)} {result : α} :
    Reads (enter ctx nesting >>= f) result made rest ↔
      nesting + 1 ≤ ctx.limits.maxDepth ∧ Reads (f (nesting + 1)) result made rest := by
  rw [enter]
  split
  · rename_i hover
    exact iff_of_false not_reads_error (fun h => Nat.not_le_of_lt hover h.1)
  · rename_i hwithin
    exact ⟨fun h => ⟨Nat.le_of_not_lt hwithin, h⟩, And.right⟩

/-- A node that is made of what has been read. -/
theorem reads_node {α : Type} {bound : Nat} {result result' : α} {left : List Token}
    {h : left.length < bound} :
    Reads (do let count ← countNode ctx nodes; return ⟨result', count, left, h⟩ :
        Except FormulaError (Taken α bound)) result made rest ↔
      nodes + 1 ≤ ctx.limits.maxNodes ∧ result = result' ∧ made = nodes + 1 ∧ rest = left := by
  rw [reads_countNode]
  exact and_congr_right' reads_ok

/-! ## Expressions, operands and operators -/

theorem reads_expression : Reads (expression ctx nesting nodes tokens) e made rest ↔
    nesting + 1 ≤ ctx.limits.maxDepth ∧
      Reads (chain ctx (nesting + 1) nodes .comparison tokens) e made rest := by
  rw [expression]
  exact reads_enter

theorem reads_chain : Reads (chain ctx nesting nodes level tokens) e made rest ↔
    ∃ first mid after, Reads (operand ctx nesting nodes level tokens) first mid after ∧
      Reads (chainRest ctx nesting mid level first after) e made rest := by
  rw [chain, reads_bind]
  constructor
  · rintro ⟨first, mid, after, h, hfirst, hrest⟩
    obtain ⟨whole, mid', after', h', hwhole, hreturn⟩ := reads_bind.mp hrest
    obtain ⟨rfl, rfl, rfl⟩ := reads_ok.mp hreturn
    exact ⟨first, mid, after, hfirst, hwhole⟩
  · rintro ⟨first, mid, after, hfirst, hwhole⟩
    exact ⟨first, mid, after, hfirst.length_lt, hfirst,
      reads_bind.mpr ⟨e, made, rest, hwhole.length_lt, hwhole, reads_ok.mpr ⟨rfl, rfl, rfl⟩⟩⟩

theorem operand_of_tighter {next : Level} (h : level.tighter? = some next) :
    operand ctx nesting nodes level tokens = chain ctx nesting nodes next tokens := by
  rw [operand]
  split <;> simp_all

theorem operand_tightest (h : level.tighter? = none) :
    operand ctx nesting nodes level tokens = unary ctx nesting nodes tokens := by
  rw [operand]
  split <;> simp_all

theorem reads_chainRest_stop (h : ∀ t ∈ tokens.head?, level.operator? t.kind = none) :
    Reads (chainRest ctx nesting nodes level left tokens) e made rest ↔
      e = left ∧ made = nodes ∧ rest = tokens := by
  cases tokens with
  | nil =>
    rw [chainRest]
    exact reads_ok
  | cons token tokens =>
    rw [chainRest]
    split
    · exact reads_ok
    · rename_i op hop
      rw [h token rfl] at hop
      cases hop

theorem reads_chainRest_cons {op : BinaryOperator} (h : level.operator? token.kind = some op) :
    Reads (chainRest ctx nesting nodes level left (token :: tokens)) e made rest ↔
      ∃ right mid after, Reads (operand ctx nesting nodes level tokens) right mid after ∧
        mid + 1 ≤ ctx.limits.maxNodes ∧
        Reads (chainRest ctx nesting (mid + 1) level (.binary op left right) after) e made
          rest := by
  rw [chainRest]
  split
  · rename_i hnone
    rw [h] at hnone
    cases hnone
  · rename_i op' hop
    cases h.symm.trans hop
    rw [reads_bind]
    constructor
    · rintro ⟨right, mid, after, hlt, hright, hcount⟩
      obtain ⟨hwithin, hcount⟩ := reads_countNode.mp hcount
      obtain ⟨whole, mid', after', hlt', hwhole, hreturn⟩ := reads_bind.mp hcount
      obtain ⟨rfl, rfl, rfl⟩ := reads_ok.mp hreturn
      exact ⟨right, mid, after, hright, hwithin, hwhole⟩
    · rintro ⟨right, mid, after, hright, hwithin, hwhole⟩
      exact ⟨right, mid, after, hright.length_lt, hright, reads_countNode.mpr ⟨hwithin,
        reads_bind.mpr ⟨e, made, rest, hwhole.length_lt, hwhole, reads_ok.mpr ⟨rfl, rfl, rfl⟩⟩⟩⟩

theorem reads_unary_minus :
    Reads (unary ctx nesting nodes (⟨.minus, lexeme, offset⟩ :: tokens)) e made rest ↔
      nesting + 1 ≤ ctx.limits.maxDepth ∧ ∃ inner mid,
        Reads (unary ctx (nesting + 1) nodes tokens) inner mid rest ∧
        mid + 1 ≤ ctx.limits.maxNodes ∧ e = .negate inner ∧ made = mid + 1 := by
  rw [unary, reads_enter]
  refine and_congr_right' ?_
  rw [reads_bind]
  constructor
  · rintro ⟨inner, mid, after, hlt, hinner, hcount⟩
    obtain ⟨hwithin, rfl, rfl, rfl⟩ := reads_node.mp hcount
    exact ⟨inner, mid, hinner, hwithin, rfl, rfl⟩
  · rintro ⟨inner, mid, hinner, hwithin, rfl, rfl⟩
    exact ⟨inner, mid, rest, hinner.length_lt, hinner, reads_node.mpr ⟨hwithin, rfl, rfl, rfl⟩⟩

theorem unary_eq_primary (h : ∀ t ∈ tokens.head?, t.kind ≠ .minus) :
    unary ctx nesting nodes tokens = primary ctx nesting nodes tokens := by
  refine unary.eq_2 ctx nesting nodes tokens ?_
  rintro lexeme offset rest rfl
  exact h _ rfl rfl

/-! ## Whole operands -/

/-- The value of a literal that is one token. -/
def literalOf : TokenKind → Option Value
  | .number n => some (.number n)
  | .text s => some (.text s)
  | .boolean b => some (.boolean b)
  | _ => none

theorem reads_primary_literal {value : Value} (h : literalOf token.kind = some value) :
    Reads (primary ctx nesting nodes (token :: tokens)) e made rest ↔
      nodes + 1 ≤ ctx.limits.maxNodes ∧ e = .literal value ∧ made = nodes + 1 ∧ rest = tokens := by
  obtain ⟨kind, lexeme, offset⟩ := token
  cases kind with
  | number | text | boolean =>
    cases h
    rw [primary]
    exact reads_node
  | _ => cases h

theorem reads_primary_paren :
    Reads (primary ctx nesting nodes (⟨.leftParen, lexeme, offset⟩ :: tokens)) e made rest ↔
      ∃ lexeme' offset', Reads (expression ctx nesting nodes tokens) e made
        (⟨.rightParen, lexeme', offset'⟩ :: rest) := by
  rw [primary, reads_bind]
  constructor
  · rintro ⟨inner, mid, after, hlt, hinner, hclose⟩
    split at hclose
    · rename_i lexeme' offset' after' hafter
      obtain ⟨rfl, rfl, rfl⟩ := reads_ok.mp hclose
      cases hafter
      exact ⟨lexeme', offset', hinner⟩
    · exact (not_reads_error hclose).elim
  · rintro ⟨lexeme', offset', hinner⟩
    exact ⟨e, made, _, hinner.length_lt, hinner, reads_ok.mpr ⟨rfl, rfl, rfl⟩⟩

theorem reads_primary_noArguments {lexeme'' : String} {offset'' : Nat} :
    Reads (primary ctx nesting nodes (⟨.identifier name, lexeme, offset⟩ ::
        ⟨.leftParen, lexeme', offset'⟩ :: ⟨.rightParen, lexeme'', offset''⟩ :: tokens)) e made
        rest ↔
      nodes + 1 ≤ ctx.limits.maxNodes ∧ e = .ofCall name [] ∧ made = nodes + 1 ∧ rest = tokens := by
  rw [primary]
  exact reads_node

theorem reads_primary_arguments (h : ∀ t ∈ tokens.head?, t.kind ≠ .rightParen) :
    Reads (primary ctx nesting nodes (⟨.identifier name, lexeme, offset⟩ ::
        ⟨.leftParen, lexeme', offset'⟩ :: tokens)) e made rest ↔
      ∃ args mid lexeme'' offset'', Reads (arguments ctx nesting nodes tokens) args mid
          (⟨.rightParen, lexeme'', offset''⟩ :: rest) ∧
        mid + 1 ≤ ctx.limits.maxNodes ∧ e = .ofCall name args ∧ made = mid + 1 := by
  -- the equation for a call that does not close at once
  rw [primary.eq_7, reads_bind]
  · constructor
    · rintro ⟨args, mid, after, hlt, hargs, hclose⟩
      split at hclose
      · rename_i lexeme'' offset'' after' hafter
        obtain ⟨hwithin, rfl, rfl, rfl⟩ := reads_node.mp hclose
        cases hafter
        exact ⟨args, mid, lexeme'', offset'', hargs, hwithin, rfl, rfl⟩
      · exact (not_reads_error hclose).elim
    · rintro ⟨args, mid, lexeme'', offset'', hargs, hwithin, rfl, rfl⟩
      exact ⟨args, mid, _, hargs.length_lt, hargs, reads_node.mpr ⟨hwithin, rfl, rfl, rfl⟩⟩
  · rintro lexeme'' offset'' rest' rfl
    exact h _ rfl rfl

/-- A name is read as a call only. -/
theorem call_of_reads_primary
    (h : Reads (primary ctx nesting nodes (⟨.identifier name, lexeme, offset⟩ :: tokens)) e made
      rest) : ∃ opening inside close, tokens = opening :: inside ∧ opening.kind = .leftParen ∧
      close.kind = .rightParen ∧
      ((inside = close :: rest ∧ nodes + 1 ≤ ctx.limits.maxNodes ∧ e = .ofCall name [] ∧
          made = nodes + 1) ∨
        ∃ args mid, Reads (arguments ctx nesting nodes inside) args mid (close :: rest) ∧
          mid + 1 ≤ ctx.limits.maxNodes ∧ e = .ofCall name args ∧ made = mid + 1) := by
  cases tokens with
  | nil =>
    unfold primary at h
    exact (not_reads_error h).elim
  | cons token tokens =>
    obtain ⟨kind, lexeme', offset'⟩ := token
    by_cases hopen : kind = .leftParen
    · subst hopen
      by_cases hclose : ∀ t ∈ tokens.head?, t.kind ≠ .rightParen
      · obtain ⟨args, mid, lexeme'', offset'', hargs⟩ := (reads_primary_arguments hclose).mp h
        exact ⟨_, tokens, _, rfl, rfl, rfl, .inr ⟨args, mid, hargs⟩⟩
      · obtain ⟨⟨kind, lexeme'', offset''⟩, hhead, hkind⟩ : ∃ t ∈ tokens.head?,
            t.kind = .rightParen := by simpa using hclose
        obtain ⟨inside, rfl⟩ := List.head?_eq_some_iff.mp hhead
        cases hkind
        obtain ⟨hwithin, rfl, rfl, rfl⟩ := reads_primary_noArguments.mp h
        exact ⟨_, _, _, rfl, rfl, rfl, .inl ⟨rfl, hwithin, rfl, rfl⟩⟩
    -- the equation for a name that no parenthesis follows
    · rw [primary.eq_8] at h
      · exact (not_reads_error h).elim
      · simp [hopen]
      · simp [hopen]

/-! ## Fields -/

/-- A field of the same record, or a field behind a link. -/
theorem reads_primary_field :
    Reads (primary ctx nesting nodes (⟨.field name, lexeme, offset⟩ :: tokens)) e made rest ↔
      nodes + 1 ≤ ctx.limits.maxNodes ∧ made = nodes + 1 ∧ ∃ f, ctx.resolver.resolve name = some f ∧
        ((∀ t ∈ tokens.head?, t.kind ≠ .dot) ∧ e = .field f ∧ rest = tokens ∨
          ∃ dot name' lexeme' offset' remote,
            tokens = dot :: ⟨.field name', lexeme', offset'⟩ :: rest ∧ dot.kind = .dot ∧
            ctx.resolver.isLink f = true ∧ ctx.resolver.resolveLinked f name' = some remote ∧
            e = .lookup f remote) := by
  rw [primary]
  constructor
  · intro h
    rw [fieldReference] at h
    split at h
    · exact (not_reads_error h).elim
    · rename_i f hf
      split at h
      · rename_i lexeme₁ offset₁ name' lexeme' offset' after
        split at h
        · rename_i hlink
          split at h
          · exact (not_reads_error h).elim
          · rename_i remote hremote
            obtain ⟨hwithin, rfl, rfl, rfl⟩ := reads_node.mp h
            exact ⟨hwithin, rfl, f, hf, .inr ⟨_, name', lexeme', offset', remote, rfl, rfl, hlink,
              hremote, rfl⟩⟩
        · exact (not_reads_error h).elim
      · exact (not_reads_error h).elim
      · rename_i hdot
        obtain ⟨hwithin, rfl, rfl, rfl⟩ := reads_node.mp h
        refine ⟨hwithin, rfl, f, hf, .inl ⟨?_, rfl, rfl⟩⟩
        rintro ⟨kind, lexeme', offset'⟩ ht rfl
        obtain ⟨tail, htail⟩ := List.head?_eq_some_iff.mp ht
        exact hdot lexeme' offset' tail htail
  · rintro ⟨hwithin, rfl, f, hf, ⟨hdot, rfl, rfl⟩ | ⟨⟨kind, lexeme₁, offset₁⟩, name', lexeme',
      offset', remote, rfl, rfl, hlink, hremote, rfl⟩⟩
    · rw [fieldReference, hf]
      dsimp only
      split
      · exact (hdot _ rfl rfl).elim
      · exact (hdot _ rfl rfl).elim
      · exact reads_node.mpr ⟨hwithin, rfl, rfl, rfl⟩
    · rw [fieldReference, hf]
      dsimp only
      rw [if_pos hlink, hremote]
      exact reads_node.mpr ⟨hwithin, rfl, rfl, rfl⟩

/-! ## Arguments -/

theorem reads_arguments : Reads (arguments ctx nesting nodes tokens) es made rest ↔
    ∃ first mid after, Reads (expression ctx nesting nodes tokens) first mid after ∧
      ((∃ comma tail more, after = comma :: tail ∧ comma.kind = .comma ∧ es = first :: more ∧
          Reads (arguments ctx nesting mid tail) more made rest) ∨
        (∀ t ∈ after.head?, t.kind ≠ .comma) ∧ es = [first] ∧ made = mid ∧ rest = after) := by
  rw [arguments, reads_bind]
  constructor
  · rintro ⟨first, mid, after, hlt, hfirst, h⟩
    refine ⟨first, mid, after, hfirst, ?_⟩
    dsimp only at h
    split at h
    · rename_i lexeme offset tail
      obtain ⟨more, mid', after', hlt', hmore, hreturn⟩ := reads_bind.mp h
      obtain ⟨rfl, rfl, rfl⟩ := reads_ok.mp hreturn
      exact .inl ⟨_, tail, more, rfl, rfl, rfl, hmore⟩
    · rename_i hcomma
      obtain ⟨rfl, rfl, rfl⟩ := reads_ok.mp h
      refine .inr ⟨?_, rfl, rfl, rfl⟩
      rintro ⟨kind, lexeme, offset⟩ ht rfl
      obtain ⟨tail, htail⟩ := List.head?_eq_some_iff.mp ht
      exact hcomma lexeme offset tail htail
  · rintro ⟨first, mid, after, hfirst, ⟨⟨kind, lexeme, offset⟩, tail, more, rfl, rfl, rfl, hmore⟩ |
      ⟨hcomma, rfl, rfl, rfl⟩⟩
    · exact ⟨first, mid, _, hfirst.length_lt, hfirst, reads_bind.mpr ⟨more, made, rest,
        hmore.length_lt, hmore, reads_ok.mpr ⟨rfl, rfl, rfl⟩⟩⟩
    · refine ⟨first, made, rest, hfirst.length_lt, hfirst, ?_⟩
      dsimp only
      split
      · exact (hcomma _ rfl rfl).elim
      · exact reads_ok.mpr ⟨rfl, rfl, rfl⟩

/-! ## Whole formulas -/

/-- Tokens are one formula if an expression is read from them and only the end is left, within the
limit on the depth. -/
theorem wholeFormula_eq_ok : wholeFormula ctx tokens = .ok e ↔
    ∃ made last rest, Reads (expression ctx 0 0 tokens) e made (last :: rest) ∧
      last.kind = .eof ∧ e.depth ≤ ctx.limits.maxDepth := by
  rw [wholeFormula, bind_eq_ok]
  constructor
  · rintro ⟨⟨result, made, after, hlt⟩, hread, h⟩
    dsimp only at h
    split at h
    · rename_i lexeme offset rest
      split at h
      · cases h
      · rename_i hdepth
        cases h
        exact ⟨made, _, rest, ⟨hlt, hread⟩, rfl, Nat.le_of_not_lt hdepth⟩
    · cases h
  · rintro ⟨made, ⟨kind, lexeme, offset⟩, rest, ⟨hlt, hread⟩, rfl, hdepth⟩
    exact ⟨_, hread, if_neg (Nat.not_lt.mpr hdepth)⟩

end ComputedFields.Parser
