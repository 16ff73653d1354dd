import ComputedFields.Proofs.Formula.Accepted

/-!
# Reading in two contexts

The parser does the same in two contexts, but for errors in the first of them that are excused, if
the steps do that ask the context: going deeper, counting a node and looking up names. Whether an
error is excused may depend on how deep, and up to how many nodes, the tokens can lead that are
left: each of them may go one level deeper and make a node.
-/

namespace ComputedFields

variable {α β : Type} {x y : Except FormulaError α} {excuse excuse' : FormulaError → Prop}

/-- Two results are the same, unless the first is an error that is excused. -/
def SameUnless (excuse : FormulaError → Prop) (x y : Except FormulaError α) : Prop :=
  x = y ∨ ∃ err, x = .error err ∧ excuse err

theorem SameUnless.refl (x : Except FormulaError α) : SameUnless excuse x x := .inl rfl

theorem SameUnless.imp (h : SameUnless excuse x y) (hexcuse : ∀ err, excuse err → excuse' err) :
    SameUnless excuse' x y :=
  h.imp_right fun ⟨err, hx, herr⟩ => ⟨err, hx, hexcuse err herr⟩

theorem SameUnless.bind {f g : α → Except FormulaError β} (h : SameUnless excuse x y)
    (hf : ∀ a, x = .ok a → SameUnless excuse (f a) (g a)) :
    SameUnless excuse (x >>= f) (y >>= g) := by
  rcases h with rfl | ⟨err, rfl, herr⟩
  · cases x with
    | error err => exact .refl _
    | ok a => exact hf a rfl
  · exact .inr ⟨err, rfl, herr⟩

theorem SameUnless.map (h : SameUnless excuse x y) (f : α → β) :
    SameUnless excuse (x.map f) (y.map f) := by
  rcases h with rfl | ⟨err, rfl, herr⟩
  · exact .refl _
  · exact .inr ⟨err, rfl, herr⟩

namespace Parser

/-- The steps in which a context is asked do the same in both, but for what is excused at the depth
and the number of nodes that they would lead to. -/
structure Coupled (ctx ctx' : Context) (excuse : Nat → Nat → FormulaError → Prop) : Prop where
  mono : ∀ {depth depth' nodes nodes' : Nat}, depth ≤ depth' → nodes ≤ nodes' →
    ∀ err, excuse depth nodes err → excuse depth' nodes' err
  enter : ∀ n, SameUnless (excuse (n + 1) 0) (enter ctx n) (enter ctx' n)
  countNode : ∀ nodes, SameUnless (excuse 0 (nodes + 1)) (countNode ctx nodes)
    (countNode ctx' nodes)
  fieldReference : ∀ nodes name offset tokens, SameUnless (excuse 0 (nodes + 1))
    (fieldReference ctx nodes name offset tokens) (fieldReference ctx' nodes name offset tokens)

variable {ctx ctx' : Context} {excuse : Nat → Nat → FormulaError → Prop} {n nodes made : Nat}
  {es : List Expr} {tokens rest : List Token}

/-! ## Counting -/

theorem of_countNode {count : Nat} (h : countNode ctx nodes = .ok count) : count = nodes + 1 := by
  rw [countNode] at h
  split at h <;> cases h
  rfl

theorem of_enter {deeper : Nat} (h : enter ctx n = .ok deeper) :
    n + 1 ≤ ctx.limits.maxDepth ∧ deeper = n + 1 := by
  rw [enter] at h
  split at h
  · cases h
  · cases h
    exact ⟨Nat.le_of_not_lt ‹_›, rfl⟩

theorem Accepts.count_le {strength : Nat} {e : Expr}
    (h : Accepts ctx n strength tokens nodes e made rest) :
    made + rest.length ≤ nodes + tokens.length := by
  obtain ⟨⟨taken, rfl, hderives, -⟩, hmade, -⟩ := h
  have hcount := hderives.nodeCount_le
  rw [List.length_map] at hcount
  rw [List.length_append]
  omega

theorem AcceptsAll.count_le (h : AcceptsAll ctx n tokens nodes es made rest) :
    made + rest.length ≤ nodes + tokens.length := by
  obtain ⟨⟨taken, parts, rfl, -, htaken, rfl, hparts⟩, hmade, -⟩ := h
  have hcount := nodeCountAll_le fun part hpart => (hparts part hpart).1.nodeCount_le
  rw [← htaken, List.length_map] at hcount
  rw [List.length_append]
  omega

/-! ## Readers in both contexts -/

namespace Coupled

/-- A call does what its arguments do. -/
theorem call {name lexeme : String} {offset : Nat} (hctx : Coupled ctx ctx' excuse)
    (h : ∀ opening inside, tokens = opening :: inside →
      SameUnless (excuse (n + (tokens.length + 1)) (nodes + (tokens.length + 1)))
        (arguments ctx n nodes inside) (arguments ctx' n nodes inside)) :
    SameUnless (excuse (n + (tokens.length + 1)) (nodes + (tokens.length + 1)))
      (primary ctx n nodes (⟨.identifier name, lexeme, offset⟩ :: tokens))
      (primary ctx' n nodes (⟨.identifier name, lexeme, offset⟩ :: tokens)) := by
  by_cases hcall : ∃ lexeme' offset' inside, tokens = ⟨.leftParen, lexeme', offset'⟩ :: inside
  · obtain ⟨lexeme', offset', inside, rfl⟩ := hcall
    have hlength : (⟨.leftParen, lexeme', offset'⟩ :: inside : List Token).length =
        inside.length + 1 := rfl
    by_cases hempty : ∃ lexeme'' offset'' rest, inside = ⟨.rightParen, lexeme'', offset''⟩ :: rest
    · obtain ⟨lexeme'', offset'', rest, rfl⟩ := hempty
      rw [primary, primary]
      exact ((hctx.countNode nodes).imp (hctx.mono (by omega) (by omega))).bind fun _ _ => .refl _
    · -- the equation for a call that does not close at once
      rw [primary.eq_7, primary.eq_7]
      · refine (h _ inside rfl).bind fun args hread => ?_
        have hlt := args.rest_lt
        have hcount := (accepts_arguments ⟨hlt, hread⟩).count_le
        split
        · exact ((hctx.countNode args.nodes).imp (hctx.mono (by omega) (by omega))).bind
            fun _ _ => .refl _
        · exact .refl _
      all_goals
        intros
        exact hempty ⟨_, _, _, ‹_›⟩
  · -- the equation for a name that no parenthesis follows
    rw [primary.eq_8, primary.eq_8]
    · exact .refl _
    all_goals
      intros
      exact hcall ⟨_, _, _, ‹_›⟩

mutual

theorem expression {n nodes : Nat} {tokens : List Token} (hctx : Coupled ctx ctx' excuse) :
    SameUnless (excuse (n + 1 + tokens.length) (nodes + tokens.length))
      (expression ctx n nodes tokens) (expression ctx' n nodes tokens) := by
  rw [Parser.expression, Parser.expression]
  refine ((hctx.enter n).imp (hctx.mono (by omega) (by omega))).bind fun deeper hdeeper => ?_
  obtain ⟨hn, rfl⟩ := of_enter hdeeper
  exact hctx.chain hn
termination_by 16 * tokens.length + 12

/-- An operand makes no more nodes than it takes tokens, so that as much may be excused of what
comes after it. -/
theorem chain {n nodes : Nat} {level : Level} {tokens : List Token}
    (hctx : Coupled ctx ctx' excuse) (hn : n ≤ ctx.limits.maxDepth) :
    SameUnless (excuse (n + tokens.length) (nodes + tokens.length))
      (chain ctx n nodes level tokens) (chain ctx' n nodes level tokens) := by
  have hrank := level.rank_le
  rw [Parser.chain, Parser.chain]
  refine (hctx.operand hn).bind fun first hfirst => ?_
  have hlt := first.rest_lt
  have hcount := (accepts_operand hn ⟨hlt, hfirst⟩).count_le
  have hrest : SameUnless _ (Parser.chainRest ctx n first.nodes level first.result first.rest) _ :=
    hctx.chainRest hn
  exact (hrest.imp (hctx.mono (by omega) (by omega))).bind fun whole _ => .refl _
termination_by 16 * tokens.length + (11 - 2 * level.rank)

theorem operand {n nodes : Nat} {level : Level} {tokens : List Token}
    (hctx : Coupled ctx ctx' excuse) (hn : n ≤ ctx.limits.maxDepth) :
    SameUnless (excuse (n + tokens.length) (nodes + tokens.length))
      (operand ctx n nodes level tokens) (operand ctx' n nodes level tokens) := by
  have hrank := level.rank_le
  cases hnext : level.tighter? with
  | some next =>
    have hnextRank := Level.rank_tighter hnext
    have hnextLe := next.rank_le
    rw [operand_of_tighter hnext, operand_of_tighter hnext]
    exact hctx.chain hn
  | none =>
    rw [operand_tightest hnext, operand_tightest hnext]
    exact hctx.unary
termination_by 16 * tokens.length + (10 - 2 * level.rank)

theorem chainRest {n nodes : Nat} {level : Level} {left : Expr} {tokens : List Token}
    (hctx : Coupled ctx ctx' excuse) (hn : n ≤ ctx.limits.maxDepth) :
    SameUnless (excuse (n + tokens.length) (nodes + tokens.length))
      (chainRest ctx n nodes level left tokens) (chainRest ctx' n nodes level left tokens) := by
  cases tokens with
  | nil =>
    rw [Parser.chainRest, Parser.chainRest]
    exact .refl _
  | cons token tokens =>
    have hlength : (token :: tokens).length = tokens.length + 1 := rfl
    rw [Parser.chainRest, Parser.chainRest]
    cases level.operator? token.kind with
    | none => exact .refl _
    | some op =>
      have hright : SameUnless _ (Parser.operand ctx n nodes level tokens) _ := hctx.operand hn
      refine (hright.imp (hctx.mono (by omega) (by omega))).bind fun right hread => ?_
      have hlt := right.rest_lt
      have hcount := (accepts_operand hn ⟨hlt, hread⟩).count_le
      refine ((hctx.countNode right.nodes).imp (hctx.mono (by omega) (by omega))).bind
        fun count hcounted => ?_
      cases of_countNode hcounted
      have hrest : SameUnless _ (Parser.chainRest ctx n (right.nodes + 1) level
          (.binary op left right.result) right.rest) _ :=
        hctx.chainRest hn
      exact (hrest.imp (hctx.mono (by omega) (by omega))).bind fun whole _ => .refl _
termination_by 16 * tokens.length + 0

theorem unary {n nodes : Nat} {tokens : List Token} (hctx : Coupled ctx ctx' excuse) :
    SameUnless (excuse (n + tokens.length) (nodes + tokens.length))
      (unary ctx n nodes tokens) (unary ctx' n nodes tokens) := by
  by_cases hminus : ∀ t ∈ tokens.head?, t.kind ≠ .minus
  · rw [unary_eq_primary hminus, unary_eq_primary hminus]
    exact hctx.primary
  · obtain ⟨⟨kind, lexeme, offset⟩, hhead, hkind⟩ : ∃ t ∈ tokens.head?, t.kind = .minus := by
      simpa using hminus
    obtain ⟨inside, rfl⟩ := List.head?_eq_some_iff.mp hhead
    cases hkind
    have hlength : (⟨.minus, lexeme, offset⟩ :: inside : List Token).length = inside.length + 1 :=
      rfl
    rw [Parser.unary, Parser.unary]
    refine ((hctx.enter n).imp (hctx.mono (by omega) (by omega))).bind fun deeper hdeeper => ?_
    obtain ⟨hdeep, rfl⟩ := of_enter hdeeper
    have hinner : SameUnless _ (Parser.unary ctx (n + 1) nodes inside) _ := hctx.unary
    refine (hinner.imp (hctx.mono (by omega) (by omega))).bind fun inner hread => ?_
    have hlt := inner.rest_lt
    have hcount := (accepts_unary hdeep ⟨hlt, hread⟩).count_le
    exact ((hctx.countNode inner.nodes).imp (hctx.mono (by omega) (by omega))).bind
      fun _ _ => .refl _
termination_by 16 * tokens.length + 2

theorem primary {n nodes : Nat} {tokens : List Token} (hctx : Coupled ctx ctx' excuse) :
    SameUnless (excuse (n + tokens.length) (nodes + tokens.length))
      (primary ctx n nodes tokens) (primary ctx' n nodes tokens) := by
  cases tokens with
  | nil =>
    unfold Parser.primary
    exact .refl _
  | cons token tokens =>
    have hlength : (token :: tokens).length = tokens.length + 1 := rfl
    obtain ⟨kind, lexeme, offset⟩ := token
    cases kind with
    | number | text | boolean =>
      rw [Parser.primary, Parser.primary]
      exact ((hctx.countNode nodes).imp (hctx.mono (by omega) (by omega))).bind fun _ _ => .refl _
    | field name =>
      rw [Parser.primary, Parser.primary]
      exact (hctx.fieldReference nodes name offset tokens).imp (hctx.mono (by omega) (by omega))
    | leftParen =>
      rw [Parser.primary, Parser.primary]
      have hinner : SameUnless _ (Parser.expression ctx n nodes tokens) _ := hctx.expression
      exact (hinner.imp (hctx.mono (by omega) (by omega))).bind fun inner _ => .refl _
    | identifier name =>
      refine hctx.call fun opening inside htokens => ?_
      have hinside : tokens.length = inside.length + 1 := by rw [htokens, List.length_cons]
      exact hctx.arguments.imp (hctx.mono (by omega) (by omega))
    | _ =>
      unfold Parser.primary
      exact .refl _
termination_by 16 * tokens.length + 1

theorem arguments {n nodes : Nat} {tokens : List Token} (hctx : Coupled ctx ctx' excuse) :
    SameUnless (excuse (n + 1 + tokens.length) (nodes + tokens.length))
      (arguments ctx n nodes tokens) (arguments ctx' n nodes tokens) := by
  rw [Parser.arguments, Parser.arguments]
  refine hctx.expression.bind fun first hfirst => ?_
  have hlt := first.rest_lt
  have hcount := (accepts_expression ⟨hlt, hfirst⟩).count_le
  split
  · rename_i lexeme offset tail hcomma
    have hlength : first.rest.length = tail.length + 1 := by rw [hcomma, List.length_cons]
    have hmore : SameUnless _ (Parser.arguments ctx n first.nodes tail) _ := hctx.arguments
    exact (hmore.imp (hctx.mono (by omega) (by omega))).bind fun more _ => .refl _
  · exact .refl _
termination_by 16 * tokens.length + 13

end

end Coupled

end Parser

end ComputedFields
