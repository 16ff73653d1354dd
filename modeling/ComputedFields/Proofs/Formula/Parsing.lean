import ComputedFields.Proofs.Formula.Printing
import ComputedFields.Proofs.Formula.Reading

/-!
# Trees of printed tokens

The tokens of a printed tree are parsed to the tree, and never go deeper than the tree does.
-/

namespace ComputedFields.Parser

open ComputedFields.Expr (nodeCountAll)
open Token (operatorKind)

variable {ctx : Context} {n nodes made strength strength' count count' : Nat} {level : Level}
  {e a b : Expr} {es : List Expr} {token : Token} {tokens tokens' tail rest : List Token}

/-! ## Tokens by their kinds -/

theorem tokens_cons {kind : TokenKind} {kinds : List TokenKind}
    (h : tokens.map Token.kind = kind :: kinds) : ∃ lexeme offset more,
      tokens = ⟨kind, lexeme, offset⟩ :: more ∧ more.map Token.kind = kinds := by
  obtain ⟨⟨kind, lexeme, offset⟩, more, rfl, rfl, hmore⟩ := List.map_eq_cons_iff.mp h
  exact ⟨lexeme, offset, more, rfl, hmore⟩

theorem tokens_snoc {kind : TokenKind} {kinds : List TokenKind}
    (h : tokens.map Token.kind = kinds ++ [kind]) : ∃ inside lexeme offset,
      tokens = inside ++ [⟨kind, lexeme, offset⟩] ∧ inside.map Token.kind = kinds := by
  obtain ⟨inside, last, rfl, hinside, hlast⟩ := List.map_eq_append_iff.mp h
  obtain ⟨lexeme, offset, more, rfl, hmore⟩ := tokens_cons hlast
  cases List.map_eq_nil_iff.mp hmore
  exact ⟨inside, lexeme, offset, rfl, hinside⟩

/-! ## What may come after an expression -/

/-- The tokens neither go on with a field nor start with an operator of rank `k` or above. -/
def Ends (k : Nat) (tail : List Token) : Prop :=
  ∀ t ∈ tail.head?, t.kind ≠ .dot ∧ ∀ level : Level, k ≤ level.rank → level.operator? t.kind = none

theorem Ends.mono {j k : Nat} (h : Ends j tail) (hjk : j ≤ k) : Ends k tail :=
  fun t ht => ⟨(h t ht).1, fun level hk => (h t ht).2 level (Nat.le_trans hjk hk)⟩

theorem ends_of_kind {kind : TokenKind} {k : Nat} (hkind : token.kind = kind) (hdot : kind ≠ .dot)
    (hop : ∀ level : Level, k ≤ level.rank → level.operator? kind = none) :
    Ends k (token :: tail) := by
  intro t ht
  cases ht
  rw [hkind]
  exact ⟨hdot, hop⟩

theorem ends_rightParen (h : token.kind = .rightParen) : Ends 0 (token :: tail) :=
  ends_of_kind h (by decide) (fun level _ => by cases level <;> rfl)

theorem ends_comma (h : token.kind = .comma) : Ends 0 (token :: tail) :=
  ends_of_kind h (by decide) (fun level _ => by cases level <;> rfl)

theorem ends_eof (h : token.kind = .eof) : Ends 0 (token :: tail) :=
  ends_of_kind h (by decide) (fun level _ => by cases level <;> rfl)

theorem operator?_operatorKind (op : BinaryOperator) :
    op.level.operator? (operatorKind op) = some op := by
  cases op <;> rfl

theorem operator?_other {op : BinaryOperator} (h : op.level ≠ level) :
    level.operator? (operatorKind op) = none := by
  cases op <;> cases level <;> first | rfl | exact absurd rfl h

theorem ends_operator {op : BinaryOperator} {k : Nat} (h : token.kind = operatorKind op)
    (hk : op.level.rank < k) : Ends k (token :: tail) := by
  refine ends_of_kind h (by cases op <;> decide) (fun level hlevel => operator?_other ?_)
  rintro rfl
  omega

/-! ## Operands by strength -/

/-- The tokens are read as a tree that binds with some strength: where an operand with its signs is
read if the strength is 4 or more, and else as the left part of what follows on its level. -/
structure ReadAs (ctx : Context) (n strength : Nat) (tokens : List Token) (e : Expr)
    (count : Nat) : Prop where
  tight : 4 ≤ strength → ∀ {nodes : Nat} {tail : List Token},
    nodes + count ≤ ctx.limits.maxNodes → Ends 4 tail →
    Reads (unary ctx n nodes (tokens ++ tail)) e (nodes + count) tail
  onLevel : ∀ {level : Level}, level.rank = strength → ∀ {nodes made : Nat} {whole : Expr}
    {tail rest : List Token}, nodes + count ≤ ctx.limits.maxNodes → Ends (strength + 1) tail →
    Reads (chainRest ctx n (nodes + count) level e tail) whole made rest →
    Reads (chain ctx n nodes level (tokens ++ tail)) whole made rest

/-- A tree that binds more tightly than a level is one operand on it. -/
theorem ReadAs.under {level : Level} (h : ReadAs ctx n strength tokens e count)
    (hlevel : level.rank < strength) (hcount : nodes + count ≤ ctx.limits.maxNodes)
    (htail : Ends (level.rank + 1) tail) :
    Reads (operand ctx n nodes level (tokens ++ tail)) e (nodes + count) tail := by
  cases hnext : level.tighter? with
  | none =>
    have hrank : level.rank = 3 := by cases level <;> first | rfl | cases hnext
    rw [operand_tightest hnext]
    exact h.tight (by omega) hcount (htail.mono (by omega))
  | some next =>
    have hrank := Level.rank_tighter hnext
    have hle := next.rank_le
    have hstop : Reads (chainRest ctx n (nodes + count) next e tail) e (nodes + count) tail :=
      (reads_chainRest_stop fun t ht => (htail t ht).2 next (by omega)).mpr ⟨rfl, rfl, rfl⟩
    rw [operand_of_tighter hnext]
    -- either the tree is of the next level, or it binds more tightly than that one too
    by_cases heq : next.rank = strength
    · exact h.onLevel heq hcount (htail.mono (by omega)) hstop
    · exact reads_chain.mpr ⟨e, _, tail, h.under (by omega) hcount (htail.mono (by omega)), hstop⟩
termination_by 4 - level.rank
decreasing_by omega

/-- A tree that binds at least as tightly as a level is the left part of what follows on it. -/
theorem ReadAs.leading (h : ReadAs ctx n strength tokens e count) (hlevel : level.rank ≤ strength)
    (hcount : nodes + count ≤ ctx.limits.maxNodes) (htail : Ends (level.rank + 1) tail)
    (hrest : Reads (chainRest ctx n (nodes + count) level e tail) a made rest) :
    Reads (chain ctx n nodes level (tokens ++ tail)) a made rest := by
  rcases Nat.eq_or_lt_of_le hlevel with heq | hlt
  · exact h.onLevel heq hcount (htail.mono (by omega)) hrest
  · exact reads_chain.mpr ⟨e, _, tail, h.under hlt hcount htail, hrest⟩

theorem ReadAs.loosen (h : ReadAs ctx n (strength + 1) tokens e count) :
    ReadAs ctx n strength tokens e count where
  tight hfour := h.tight (by omega)
  onLevel hlevel nodes made whole tail rest hcount htail hrest := by
    rw [← hlevel] at htail
    exact h.leading (by omega) hcount htail hrest

/-- A whole expression, one level deeper than its surroundings. -/
theorem ReadAs.whole (h : ReadAs ctx (n + 1) strength tokens e count)
    (hdepth : n + 1 ≤ ctx.limits.maxDepth) (hcount : nodes + count ≤ ctx.limits.maxNodes)
    (htail : Ends 0 tail) :
    Reads (expression ctx n nodes (tokens ++ tail)) e (nodes + count) tail := by
  have hstop : Reads (chainRest ctx (n + 1) (nodes + count) .comparison e tail) e (nodes + count)
      tail :=
    (reads_chainRest_stop fun t ht => (htail t ht).2 _ (Nat.zero_le _)).mpr ⟨rfl, rfl, rfl⟩
  exact reads_expression.mpr
    ⟨hdepth, h.leading (Nat.zero_le _) hcount (htail.mono (Nat.zero_le _)) hstop⟩

/-! ## Trees of their parts -/

/-- An operand without signs. -/
theorem readAs_of_primary (hstrength : 4 ≤ strength) (hminus : token.kind ≠ .minus)
    (h : ∀ (nodes : Nat) (tail : List Token), nodes + count ≤ ctx.limits.maxNodes → Ends 4 tail →
      Reads (primary ctx n nodes (token :: (tokens ++ tail))) e (nodes + count) tail) :
    ReadAs ctx n strength (token :: tokens) e count where
  tight _ nodes tail hcount htail := by
    rw [List.cons_append, unary_eq_primary]
    · exact h nodes tail hcount htail
    · intro t ht
      cases ht
      exact hminus
  onLevel {level} hlevel := by
    have hle := level.rank_le
    omega

theorem ReadAs.parens (h : ReadAs ctx (n + 1) strength tokens e count)
    (hdepth : n + 1 ≤ ctx.limits.maxDepth) {lexeme lexeme' : String} {offset offset' : Nat} :
    ReadAs ctx n 5 (⟨.leftParen, lexeme, offset⟩ :: (tokens ++ [⟨.rightParen, lexeme', offset'⟩])) e
      count := by
  refine readAs_of_primary (by decide) (by simp) fun nodes tail hcount htail => ?_
  rw [List.append_assoc]
  exact reads_primary_paren.mpr ⟨lexeme', offset', h.whole hdepth hcount (ends_rightParen rfl)⟩

theorem ReadAs.negate (h : ReadAs ctx (n + 1) strength tokens e count) (hstrength : 4 ≤ strength)
    (hdepth : n + 1 ≤ ctx.limits.maxDepth) {lexeme : String} {offset : Nat} :
    ReadAs ctx n 4 (⟨.minus, lexeme, offset⟩ :: tokens) (.negate e) (count + 1) where
  tight _ nodes tail hcount htail := by
    rw [List.cons_append]
    exact reads_unary_minus.mpr ⟨hdepth, e, nodes + count, h.tight hstrength (by omega) htail,
      by omega, rfl, by omega⟩
  onLevel {level} hlevel := by
    have hle := level.rank_le
    omega

theorem ReadAs.binary {op : BinaryOperator} (ha : ReadAs ctx n strength tokens a count)
    (hleft : op.level.rank ≤ strength) (hop : token.kind = operatorKind op)
    (hb : ReadAs ctx n strength' tokens' b count') (hright : op.level.rank < strength') :
    ReadAs ctx n op.level.rank (tokens ++ token :: tokens') (.binary op a b)
      (count + count' + 1) where
  tight hfour := by
    have hle := op.level.rank_le
    omega
  onLevel {level} hlevel nodes made whole tail rest hcount htail hrest := by
    have hsame : op.level = level := by
      cases hop : op.level <;> cases level <;> first | rfl | simp [hop, Level.rank] at hlevel
    subst hsame
    rw [List.append_assoc, List.cons_append]
    refine ha.leading hleft (by omega) (ends_operator hop (Nat.lt_succ_self _)) ?_
    have hunder : Reads (operand ctx n (nodes + count) op.level (tokens' ++ tail)) b _ tail :=
      hb.under hright (by omega) htail
    refine (reads_chainRest_cons (hop ▸ operator?_operatorKind op)).mpr
      ⟨b, _, tail, hunder, by omega, ?_⟩
    rwa [Nat.add_assoc nodes count, Nat.add_assoc nodes]

/-! ## Calls -/

/-- Expressions with commas between are read one by one, each one level deeper than the call. -/
theorem reads_separated (nodes : Nat) {parts : List (List TokenKind × Expr)} (hne : parts ≠ [])
    (h : ∀ part ∈ parts, ∀ tokens : List Token, tokens.map Token.kind = part.1 →
      ∃ strength, ReadAs ctx (n + 1) strength tokens part.2 part.2.nodeCount)
    (hdepth : n + 1 ≤ ctx.limits.maxDepth)
    (htokens : tokens.map Token.kind = [TokenKind.comma].intercalate (parts.map Prod.fst))
    (hcount : nodes + nodeCountAll (parts.map Prod.snd) ≤ ctx.limits.maxNodes)
    (hclose : token.kind = .rightParen) :
    Reads (arguments ctx n nodes (tokens ++ token :: tail)) (parts.map Prod.snd)
      (nodes + nodeCountAll (parts.map Prod.snd)) (token :: tail) := by
  induction parts generalizing nodes tokens with
  | nil => exact absurd rfl hne
  | cons part parts ih =>
    obtain ⟨hpart, hparts⟩ := List.forall_mem_cons.mp h
    rw [List.map_cons, nodeCountAll] at hcount
    rw [List.map_cons, nodeCountAll]
    cases parts with
    | nil =>
      obtain ⟨strength, hread⟩ := hpart tokens (by simpa using htokens)
      refine reads_arguments.mpr ⟨part.2, nodes + part.2.nodeCount, token :: tail,
        hread.whole hdepth (by omega) (ends_rightParen hclose), .inr ⟨?_, rfl, rfl, rfl⟩⟩
      intro t ht
      cases ht
      rw [hclose]
      decide
    | cons next parts =>
      rw [List.map_cons, List.map_cons, List.intercalate_cons_cons] at htokens
      obtain ⟨before, after, rfl, hbefore, hafter⟩ := List.map_eq_append_iff.mp htokens
      obtain ⟨first, lexeme, offset, rfl, hfirst⟩ := tokens_snoc hbefore
      obtain ⟨strength, hread⟩ := hpart first hfirst
      -- the first argument ends at the comma, the others are read after it
      have hmore := ih (nodes + part.2.nodeCount) (by simp) hparts hafter (by omega)
      have hcommas : Ends 0 (⟨.comma, lexeme, offset⟩ :: (after ++ token :: tail)) := ends_comma rfl
      rw [List.append_assoc, List.append_assoc, ← Nat.add_assoc]
      exact reads_arguments.mpr ⟨part.2, nodes + part.2.nodeCount, _,
        hread.whole hdepth (by omega) hcommas, .inl ⟨_, _, _, rfl, rfl, rfl, hmore⟩⟩

/-- A name with arguments in parentheses is read as a call. -/
theorem readAs_ofCall {name : String} {parts : List (List TokenKind × Expr)}
    (h : ∀ part ∈ parts, ∀ tokens : List Token, tokens.map Token.kind = part.1 →
      ∃ strength, ReadAs ctx (n + 1) strength tokens part.2 part.2.nodeCount)
    (hstart : ∀ part ∈ parts, ∃ kind more, part.1 = kind :: more ∧ kind ≠ .rightParen)
    (hdepth : parts ≠ [] → n + 1 ≤ ctx.limits.maxDepth)
    (htokens : tokens.map Token.kind = .identifier name :: .leftParen ::
      ([TokenKind.comma].intercalate (parts.map Prod.fst) ++ [.rightParen])) :
    ReadAs ctx n 5 tokens (.ofCall name (parts.map Prod.snd))
      (nodeCountAll (parts.map Prod.snd) + 1) := by
  obtain ⟨lexeme, offset, called, rfl, hcalled⟩ := tokens_cons htokens
  obtain ⟨lexeme', offset', closed, rfl, hclosed⟩ := tokens_cons hcalled
  obtain ⟨inside, lexeme'', offset'', rfl, hinside⟩ := tokens_snoc hclosed
  refine readAs_of_primary (by decide) (by simp) fun nodes tail hcount htail => ?_
  rw [List.cons_append, List.append_assoc]
  cases parts with
  | nil =>
    cases List.map_eq_nil_iff.mp hinside
    exact reads_primary_noArguments.mpr ⟨hcount, rfl, rfl, rfl⟩
  | cons part parts =>
    have hread : Reads (arguments ctx n nodes (inside ++ ⟨.rightParen, lexeme'', offset''⟩ :: tail))
        _ _ _ :=
      reads_separated nodes (by simp) h (hdepth (by simp)) hinside (by omega) rfl
    refine (reads_primary_arguments ?_).mpr ⟨_, _, lexeme'', offset'', hread, by omega, rfl, rfl⟩
    -- arguments do not start with a closing parenthesis, so the call is not read as an empty one
    obtain ⟨kind, more, hkinds, hkind⟩ := hstart part List.mem_cons_self
    have hfirst : ∃ more', inside.map Token.kind = kind :: more' := by
      rw [hinside, List.map_cons, hkinds]
      cases parts with
      | nil => exact ⟨more, by simp⟩
      | cons next parts => exact ⟨_, by rw [List.map_cons, List.intercalate_cons_cons]; rfl⟩
    obtain ⟨more', hmore⟩ := hfirst
    obtain ⟨lexeme₁, offset₁, others, rfl, -⟩ := tokens_cons hmore
    intro t ht
    cases ht
    exact hkind

end ComputedFields.Parser

namespace ComputedFields.Expr

open ComputedFields.Parser

variable {ctx : Context} {n nodes : Nat} {e : Expr} {tokens : List Token}
  {nameOf : FieldId → String}

/-! ## Nesting of a printed tree -/

/-- How much further a tree may be nested than its depth alone allows: the operands of an operator
are read at the nesting of the operator. -/
def slack (e : Expr) : Nat := if e.strength < 4 then 2 else 1

theorem depth_pos (e : Expr) : 1 ≤ e.depth := by
  unfold depth
  split <;> omega

theorem depthAll_le_nodeCountAll {es : List Expr} (h : ∀ e ∈ es, e.depth ≤ e.nodeCount) :
    depthAll es ≤ nodeCountAll es := by
  induction es with
  | nil => exact Nat.le_refl _
  | cons e es ih =>
    obtain ⟨he, hes⟩ := List.forall_mem_cons.mp h
    have hmore := ih hes
    rw [depthAll, nodeCountAll]
    omega

theorem depth_le_nodeCount (e : Expr) : e.depth ≤ e.nodeCount := by
  induction e with
  | literal | field | lookup => rw [depth, nodeCount]
  | call name args ih =>
    have hargs := depthAll_le_nodeCountAll ih
    rw [depth, nodeCount]
    omega
  | _ =>
    rw [depth, nodeCount]
    omega

theorem slack_le_depth (e : Expr) : e.slack ≤ e.depth := by
  cases e with
  | binary op left right =>
    have hleft := left.depth_pos
    rw [slack, depth]
    split <;> omega
  | literal value =>
    rw [slack, if_neg]
    · exact depth_pos _
    · unfold strength
      split <;> (try split) <;> simp_all
  | _ => simp [slack, strength, depth_pos]

theorem one_le_slack (e : Expr) : 1 ≤ e.slack := by
  rw [slack]
  split <;> decide

/-- A printed tree starts with something, but not with the end of what is in parentheses. -/
theorem kinds_eq_cons (nameOf : FieldId → String) :
    ∀ e : Expr, ∃ kind more, e.kinds nameOf = kind :: more ∧ kind ≠ .rightParen
  | .literal value => by
    rw [kinds]
    unfold literalKinds
    split <;> (try split) <;> exact ⟨_, _, rfl, by simp⟩
  | .field f => ⟨_, _, by rw [kinds], by simp⟩
  | .lookup link f => ⟨_, _, by rw [kinds]; rfl, by simp⟩
  | .negate operand => ⟨_, _, by rw [kinds]; rfl, by simp⟩
  | .binary op left right => by
    obtain ⟨kind, more, hleft, hkind⟩ := kinds_eq_cons nameOf left
    rw [kinds, enclose, hleft]
    split
    · exact ⟨_, _, rfl, by simp⟩
    · exact ⟨_, _, rfl, hkind⟩
  | .conditional condition yes none => ⟨_, _, by rw [kinds]; rfl, by simp⟩
  | .conditional condition yes (some no) => ⟨_, _, by rw [kinds]; rfl, by simp⟩
  | .call name args => ⟨_, _, by rw [kinds]; rfl, by simp⟩

theorem kindsAll_eq_intercalate (nameOf : FieldId → String) (es : List Expr) :
    kindsAll nameOf es = [TokenKind.comma].intercalate (es.map (kinds nameOf)) := by
  induction es with
  | nil => rfl
  | cons e es ih =>
    cases es with
    | nil => simp [kindsAll]
    | cons next es => simp only [kindsAll, ih, List.map_cons, List.intercalate_cons_cons]

/-! ## Reading a printed tree -/

/-- The tokens of a printed tree are read as the tree, nested no deeper than the tree is. -/
def ReadsBack (ctx : Context) (nameOf : FieldId → String) (e : Expr) : Prop :=
  ∀ (n : Nat) (tokens : List Token), tokens.map Token.kind = e.kinds nameOf →
    n + e.depth ≤ ctx.limits.maxDepth + e.slack →
    ReadAs ctx n e.strength tokens e.normalize e.nodeCount

/-- An operand, in parentheses where it binds too loosely. -/
theorem ReadsBack.enclosed (h : e.ReadsBack ctx nameOf) {k : Nat} (hk : k ≤ 4) {needed : Bool}
    (hneeded : needed = true ↔ e.strength < k)
    (htokens : tokens.map Token.kind = enclose needed (e.kinds nameOf))
    (hdepth : n + e.depth ≤ ctx.limits.maxDepth + 1) :
    ∃ strength, k ≤ strength ∧ ReadAs ctx n strength tokens e.normalize e.nodeCount := by
  cases needed with
  | false =>
    have hslack := e.one_le_slack
    exact ⟨e.strength, by simpa using hneeded, h n tokens htokens (by omega)⟩
  | true =>
    -- parentheses take one level of nesting, which a tree that needs them leaves unused
    have hslack : e.slack = 2 := if_pos (by have := hneeded.mp rfl; omega)
    have hle := e.slack_le_depth
    obtain ⟨lexeme, offset, more, rfl, hmore⟩ := tokens_cons htokens
    obtain ⟨inside, lexeme', offset', rfl, hinside⟩ := tokens_snoc hmore
    exact ⟨5, by omega, (h (n + 1) inside hinside (by omega)).parens (by omega)⟩

/-! ## Nodes -/

theorem toUpper_if : Text.toUpper "IF" = "IF" := by decide

theorem UpperWord.toUpper_eq {name : String} (h : UpperWord name) : Text.toUpper name = name := by
  obtain ⟨word, -, rfl⟩ := h
  exact Text.toUpper_toUpper word

/-- A call that is no choice is made as it is, under its name in upper case. -/
theorem ofCall_of_not_choice {name : String} {args : List Expr}
    (h : ¬ ReadsAsChoice (Text.toUpper name) args) :
    ofCall name args = .call (Text.toUpper name) args := by
  rw [ofCall]
  · rintro condition yes hif rfl
    exact h ⟨by simpa using hif, .inl rfl⟩
  · rintro condition yes no hif rfl
    exact h ⟨by simpa using hif, .inr rfl⟩

theorem nodeCountAll_map_normalize {es : List Expr}
    (h : ∀ e ∈ es, e.normalize.nodeCount = e.nodeCount) :
    nodeCountAll (es.map normalize) = nodeCountAll es := by
  induction es with
  | nil => rfl
  | cons e es ih =>
    obtain ⟨he, hes⟩ := List.forall_mem_cons.mp h
    rw [List.map_cons, nodeCountAll, nodeCountAll, he, ih hes]

theorem nodeCount_normalize (e : Expr) : e.normalize.nodeCount = e.nodeCount := by
  induction e with
  | literal value => rw [normalize, nodeCount, nodeCount]
  | field f => rw [normalize]
  | lookup link f => rw [normalize]
  | negate operand ih => rw [normalize, nodeCount, nodeCount, ih]
  | binary op left right ihleft ihright => rw [normalize, nodeCount, nodeCount, ihleft, ihright]
  | ifThen condition yes ihcondition ihyes =>
    rw [normalize, nodeCount, nodeCount, ihcondition, ihyes]
  | ifThenElse condition yes no ihcondition ihyes ihno =>
    rw [normalize, nodeCount, nodeCount, ihcondition, ihyes, ihno]
  | call name args ih =>
    rw [normalize, nodeCount, nodeCount, normalizeAll_eq_map, nodeCountAll_map_normalize ih]

theorem le_depthAll {es : List Expr} (h : e ∈ es) : e.depth ≤ depthAll es := by
  induction es with
  | nil => cases h
  | cons e' es ih =>
    rw [depthAll]
    rcases List.mem_cons.mp h with rfl | h
    · exact Nat.le_max_left _ _
    · exact Nat.le_trans (ih h) (Nat.le_max_right _ _)

theorem literalKinds_eq_singleton {value : Value} (h : value.IsLiteral) :
    ∃ kind, literalKinds value = [kind] ∧ kind ≠ .minus ∧
      literalOf kind = some value.normalize := by
  cases value with
  | boolean b => exact ⟨_, rfl, by simp, rfl⟩
  | text s => exact ⟨_, rfl, by simp, rfl⟩
  | number n =>
    exact ⟨_, literalKinds_of_nonnegative (negative_normalize_eq_false h), by simp, rfl⟩
  | null | date _ | duration _ | list _ | error _ => exact h.elim

theorem readsBack_literal {value : Value} (h : value.IsLiteral) :
    (literal value).ReadsBack ctx nameOf := by
  intro n tokens htokens hdepth
  have hstrength : 4 ≤ (literal value).strength := by
    unfold strength
    split <;> (try split) <;> simp_all
  obtain ⟨kind, hkinds, hminus, hvalue⟩ := literalKinds_eq_singleton h
  rw [kinds, hkinds] at htokens
  obtain ⟨lexeme, offset, more, rfl, hmore⟩ := tokens_cons htokens
  cases List.map_eq_nil_iff.mp hmore
  refine readAs_of_primary hstrength hminus fun nodes tail hcount htail => ?_
  exact (reads_primary_literal hvalue).mpr ⟨hcount, rfl, rfl, rfl⟩

theorem readsBack_field {f : FieldId} (h : ctx.resolver.Names f) :
    (field f).ReadsBack ctx (nameIn ctx.resolver) := by
  intro n tokens htokens hdepth
  obtain ⟨name, hname, -, hresolve⟩ := h
  obtain ⟨lexeme, offset, more, rfl, hmore⟩ := tokens_cons htokens
  cases List.map_eq_nil_iff.mp hmore
  refine readAs_of_primary (by simp [strength]) (by simp) fun nodes tail hcount htail => ?_
  rw [nameIn_eq hname]
  exact reads_primary_field.mpr
    ⟨hcount, rfl, f, hresolve, .inl ⟨fun t ht => (htail t ht).1, rfl, rfl⟩⟩

theorem readsBack_lookup {link f : FieldId} (h : ctx.resolver.Follows link f) :
    (lookup link f).ReadsBack ctx (nameIn ctx.resolver) := by
  intro n tokens htokens hdepth
  obtain ⟨⟨name, hname, -, hresolve⟩, hlink, name', hname', -, hremote⟩ := h
  obtain ⟨lexeme, offset, pointed, rfl, hpointed⟩ := tokens_cons htokens
  obtain ⟨lexeme', offset', behind, rfl, hbehind⟩ := tokens_cons hpointed
  obtain ⟨lexeme'', offset'', more, rfl, hmore⟩ := tokens_cons hbehind
  cases List.map_eq_nil_iff.mp hmore
  refine readAs_of_primary (by simp [strength]) (by simp) fun nodes tail hcount htail => ?_
  rw [nameIn_eq hname, nameIn_eq hname']
  exact reads_primary_field.mpr ⟨hcount, rfl, link, hresolve,
    .inr ⟨_, name', lexeme'', offset'', f, rfl, rfl, hlink, hremote, rfl⟩⟩

theorem ReadsBack.negate (h : e.ReadsBack ctx nameOf) : (negate e).ReadsBack ctx nameOf := by
  intro n tokens htokens hdepth
  have hslack : (Expr.negate e).slack = 1 := rfl
  have hpos := e.depth_pos
  rw [hslack, depth] at hdepth
  rw [kinds] at htokens
  obtain ⟨lexeme, offset, more, rfl, hmore⟩ := tokens_cons htokens
  obtain ⟨strength, hstrength, hread⟩ := h.enclosed (n := n + 1) (k := 4) (by decide)
    decide_eq_true_iff hmore (by omega)
  exact hread.negate hstrength (by omega)

theorem ReadsBack.binary {op : BinaryOperator} {a b : Expr} (ha : a.ReadsBack ctx nameOf)
    (hb : b.ReadsBack ctx nameOf) : (binary op a b).ReadsBack ctx nameOf := by
  intro n tokens htokens hdepth
  have hrank := op.level.rank_le
  have hslack : (Expr.binary op a b).slack = 2 := if_pos (Nat.lt_succ_of_le hrank)
  rw [hslack, depth] at hdepth
  rw [kinds] at htokens
  obtain ⟨left, others, rfl, hleft, hothers⟩ := List.map_eq_append_iff.mp htokens
  obtain ⟨lexeme, offset, right, rfl, hright⟩ := tokens_cons hothers
  obtain ⟨strength, hstrength, hreadLeft⟩ := ha.enclosed (n := n) (by omega)
    decide_eq_true_iff hleft (by omega)
  obtain ⟨strength', hstrength', hreadRight⟩ := hb.enclosed (n := n) (k := op.level.rank + 1)
    (by omega) (by rw [decide_eq_true_iff, Nat.lt_succ_iff]) hright (by omega)
  exact hreadLeft.binary hstrength rfl hreadRight hstrength'

/-- A call of an upper-case name, or a choice. -/
theorem readsBack_ofCall {whole : Expr} (name : String) {args : List Expr}
    (hargs : ∀ e ∈ args, e.ReadsBack ctx nameOf) (hstrength : whole.strength = 5)
    (hkinds : whole.kinds nameOf =
      [.identifier name] ++ [.leftParen] ++ kindsAll nameOf args ++ [.rightParen])
    (hnormalize : whole.normalize = .ofCall name (normalizeAll args))
    (hcount : whole.nodeCount = nodeCountAll args + 1) (hwhole : whole.depth = depthAll args + 1) :
    whole.ReadsBack ctx nameOf := by
  intro n tokens htokens hdepth
  have hslack : whole.slack = 1 := if_neg (by omega)
  have hnested : n + depthAll args ≤ ctx.limits.maxDepth := by omega
  let parts := args.map fun e => (e.kinds nameOf, e.normalize)
  have hsnd : parts.map Prod.snd = args.map normalize := by simp [parts]
  have hfst : parts.map Prod.fst = args.map (kinds nameOf) := by simp [parts]
  have hread : ∀ part ∈ parts, ∀ tokens : List Token, tokens.map Token.kind = part.1 →
      ∃ strength, ReadAs ctx (n + 1) strength tokens part.2 part.2.nodeCount := by
    intro part hpart tokens htokens
    obtain ⟨e, he, rfl⟩ := List.mem_map.mp hpart
    have hle := le_depthAll he
    have hone := e.one_le_slack
    rw [nodeCount_normalize]
    exact ⟨e.strength, hargs e he (n + 1) tokens htokens (by omega)⟩
  have hstart : ∀ part ∈ parts, ∃ kind more, part.1 = kind :: more ∧ kind ≠ .rightParen := by
    intro part hpart
    obtain ⟨e, he, rfl⟩ := List.mem_map.mp hpart
    exact kinds_eq_cons nameOf e
  rw [hstrength, hnormalize, hcount, normalizeAll_eq_map,
    ← nodeCountAll_map_normalize fun e _ => nodeCount_normalize e, ← hsnd]
  refine readAs_ofCall hread hstart (fun hne => ?_) ?_
  · obtain ⟨e, he⟩ := List.exists_mem_of_ne_nil args (by simpa [parts] using hne)
    have hle := le_depthAll he
    have hpos := e.depth_pos
    omega
  · rw [htokens, hkinds, kindsAll_eq_intercalate, hfst, List.append_assoc, List.append_assoc]
    rfl

/-- A tree that source text can stand for is read back from its tokens. -/
theorem readsBack_of_fits (e : Expr) (h : e.Fits ctx.resolver) :
    e.ReadsBack ctx (nameIn ctx.resolver) := by
  induction e with
  | literal value => exact readsBack_literal h.node
  | field f => exact readsBack_field h.node
  | lookup link f => exact readsBack_lookup h.node
  | negate operand ih => exact (ih (fits_negate.mp h)).negate
  | binary op left right ihleft ihright =>
    obtain ⟨hleft, hright⟩ := fits_binary.mp h
    exact (ihleft hleft).binary (ihright hright)
  | ifThen condition yes ihcondition ihyes =>
    obtain ⟨hcondition, hyes⟩ := fits_ifThen.mp h
    have hargs : ∀ e ∈ [condition, yes], e.ReadsBack ctx (nameIn ctx.resolver) := by
      simp [ihcondition hcondition, ihyes hyes]
    refine readsBack_ofCall "IF" hargs rfl ?_ ?_ ?_ ?_
    · simp [kinds, kindsAll]
    · simp [ofCall, toUpper_if, normalize, normalizeAll]
    · simp [nodeCount, nodeCountAll]
    · simp [depth, depthAll]
  | ifThenElse condition yes no ihcondition ihyes ihno =>
    obtain ⟨hcondition, hyes, hno⟩ := fits_ifThenElse.mp h
    have hargs : ∀ e ∈ [condition, yes, no], e.ReadsBack ctx (nameIn ctx.resolver) := by
      simp [ihcondition hcondition, ihyes hyes, ihno hno]
    refine readsBack_ofCall "IF" hargs rfl ?_ ?_ ?_ ?_
    · simp [kinds, kindsAll]
    · simp [ofCall, toUpper_if, normalize, normalizeAll]
    · simp [nodeCount, nodeCountAll, Nat.add_assoc]
    · simp [depth, depthAll]
  | call name args ih =>
    obtain ⟨⟨hname, hchoice⟩, hargs⟩ := fits_call.mp h
    refine readsBack_ofCall name (fun e he => ih e he (hargs e he)) rfl (by rw [kinds]) ?_
      (by rw [nodeCount]) (by rw [depth])
    -- shortening the numbers keeps the arguments as many as they are
    have hshort : ¬ ReadsAsChoice (Text.toUpper name) (normalizeAll args) := by
      rw [hname.toUpper_eq, ReadsAsChoice, normalizeAll_eq_map, List.length_map]
      exact hchoice
    rw [normalize, ofCall_of_not_choice hshort, hname.toUpper_eq]

end ComputedFields.Expr
