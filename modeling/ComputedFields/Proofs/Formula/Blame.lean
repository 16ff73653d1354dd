import ComputedFields.Proofs.Formula.Accepted
import ComputedFields.Proofs.Formula.Shape

/-!
# The first impossible token

When the parser complains about a token, the tokens before it are the start of some formula, and
none starts with them and the token. Each reader takes as much as it can: what comes after it does
not go on with what was taken.
-/

namespace ComputedFields

/-- An error that is about a source text: what it says, or how large its formula is. -/
def FormulaError.RefusesSource : FormulaError → Prop
  | .lex _ _ | .parse _ _ _ | .unknownField _ _ | .notALinkField _ _ | .limitExceeded _ _ _ => True
  | .circularDependency _ | .noFormula _ | .foreignField _ _ | .notASourceField _ => False

namespace Parser

open ComputedFields.Progress (run)

variable {α β : Type} {ctx : Context} {n nodes k : Nat} {good : α → Prop} {good' : β → Prop}
  {bad bad' : Nat → TokenKind → Prop} {x : Except FormulaError α} {kind : TokenKind}
  {kinds : List TokenKind} {groups : List Enclosure} {tokens inside rest taken : List Token}
  {position : Nat} {found : TokenKind}

/-! ## Complaints -/

/-- A result is good, a complaint about a token is about a bad one, and every other complaint is
about the source. -/
def Yields (good : α → Prop) (bad : Nat → TokenKind → Prop) : Except FormulaError α → Prop
  | .ok a => good a
  | .error (.parse position _ found) => bad position found
  | .error err => err.RefusesSource

theorem Yields.bind {f : α → Except FormulaError β} (h : Yields good bad x)
    (hbad : ∀ position found, bad position found → bad' position found)
    (hf : ∀ a, x = .ok a → good a → Yields good' bad' (f a)) : Yields good' bad' (x >>= f) := by
  cases x with
  | ok a => exact hf a rfl h
  | error err =>
    cases err with
    | parse position expected found => exact hbad position found h
    | _ => exact h

theorem Yields.imp {good' : α → Prop} (h : Yields good bad x) (hgood : ∀ a, good a → good' a)
    (hbad : ∀ position found, bad position found → bad' position found) :
    Yields good' bad' x := by
  cases x with
  | ok a => exact hgood a h
  | error err =>
    cases err with
    | parse position expected found => exact hbad position found h
    | _ => exact h

theorem Yields.refusesSource {err : FormulaError} (h : Yields good bad (.error err)) :
    err.RefusesSource := by
  cases err with
  | parse position expected found => trivial
  | _ => exact h

/-- Counting a node is no reason to complain about a token. -/
theorem yields_countNode {f : Nat → Except FormulaError α}
    (h : ∀ count, Yields good bad (f count)) : Yields good bad (countNode ctx nodes >>= f) := by
  rw [countNode]
  split
  · trivial
  · exact h _

theorem yields_enter {f : Nat → Except FormulaError α} (h : ∀ deeper, Yields good bad (f deeper)) :
    Yields good bad (enter ctx n >>= f) := by
  rw [enter]
  split
  · trivial
  · exact h _

/-- The first of the tokens, or the end if there are none. -/
def first (tokens : List Token) : Token := tokens.headD ⟨.eof, "", 0⟩

theorem first_ne (heof : kind ≠ .eof)
    (h : ∀ lexeme offset more, tokens = ⟨kind, lexeme, offset⟩ :: more → False) :
    (first tokens).kind ≠ kind := by
  rintro rfl
  cases tokens with
  | nil => exact heof rfl
  | cons token tokens => exact h token.lexeme token.offset tokens rfl

theorem yields_unexpected {expected : Expectation} (h : bad (first rest).offset (first rest).kind) :
    Yields good bad (.error (unexpected expected rest)) := by
  cases rest <;> exact h

/-! ## What is taken and what is not -/

/-- What follows an expression is no operator of rank `k` or above, and no dot that goes on with the
expression. -/
def Ended (k : Nat) (kinds : List TokenKind) (next : TokenKind) : Prop :=
  (∀ level : Level, k ≤ level.rank → level.operator? next = none) ∧
    (next = .dot → ∀ groups, run ⟨.operand, groups⟩ (kinds ++ [next]) = none)

/-- What was taken of some tokens is an expression, and all of it. -/
def Takes (k : Nat) (tokens rest : List Token) : Prop :=
  ∃ taken, tokens = taken ++ rest ∧ Shape k (taken.map Token.kind) ∧
    Ended k (taken.map Token.kind) (first rest).kind

/-- What was taken of some tokens is arguments, and after them only their end may come. -/
def TakesArguments (tokens rest : List Token) : Prop :=
  ∃ taken, tokens = taken ++ rest ∧ Arguments (taken.map Token.kind) ∧
    ((first rest).kind ≠ .rightParen → ∀ groups,
      run ⟨.operand, .arguments :: groups⟩ (taken.map Token.kind ++ [(first rest).kind]) = none)

/-- A token is impossible: the tokens before it can be extended to a whole, and it cannot come after
them within the groups that are open. -/
def Blames (whole : List TokenKind → Prop) (opened : List Enclosure) (tokens : List Token)
    (position : Nat) (found : TokenKind) : Prop :=
  ∃ before rest, tokens = before ++ rest ∧ (first rest).offset = position ∧
    (first rest).kind = found ∧ (∃ more, whole (before.map Token.kind ++ more)) ∧
    ∀ groups, run ⟨.operand, opened ++ groups⟩ (before.map Token.kind ++ [found]) = none

/-- Tokens of which a part is read where some groups are open. -/
theorem Blames.within {whole whole' : List TokenKind → Prop} {opened opened' : List Enclosure}
    (front : List Token) (behind : List TokenKind) (h : Blames whole opened inside position found)
    (hwhole : ∀ kinds, whole kinds → whole' (front.map Token.kind ++ (kinds ++ behind)))
    (hrun : ∀ groups, ∃ groups', ∀ kinds, kinds.head? = some (first inside).kind →
      run ⟨.operand, opened' ++ groups⟩ (front.map Token.kind ++ kinds) =
        run ⟨.operand, opened ++ groups'⟩ kinds) :
    Blames whole' opened' (front ++ inside) position found := by
  obtain ⟨before, rest, rfl, hposition, hfound, ⟨more, hmore⟩, hstuck⟩ := h
  refine ⟨front ++ before, rest, by rw [List.append_assoc], hposition, hfound,
    ⟨more ++ behind, ?_⟩, fun groups => ?_⟩
  · simpa using hwhole _ hmore
  · obtain ⟨groups', hsame⟩ := hrun groups
    have hhead : (before.map Token.kind ++ [found]).head? = some (first (before ++ rest)).kind := by
      cases before with
      | nil => exact congrArg some hfound.symm
      | cons token before => rfl
    rw [List.map_append, List.append_assoc, hsame _ hhead]
    exact hstuck groups'

theorem Blames.imp {whole whole' : List TokenKind → Prop}
    (h : Blames whole [] tokens position found) (hwhole : ∀ kinds, whole kinds → whole' kinds) :
    Blames whole' [] tokens position found := by
  obtain ⟨before, rest, htokens, hposition, hfound, ⟨more, hmore⟩, hstuck⟩ := h
  exact ⟨before, rest, htokens, hposition, hfound, ⟨more, hwhole _ hmore⟩, hstuck⟩

theorem Takes.mono {j : Nat} (h : Takes k tokens rest) (hjk : j ≤ k) (hk : 4 ≤ j) :
    Takes j tokens rest := by
  obtain ⟨taken, htokens, hshape, -, hdot⟩ := h
  refine ⟨taken, htokens, hshape.mono hjk, fun level hlevel => ?_, hdot⟩
  have hle := level.rank_le
  omega

theorem Ended.of_none {level : Level} (h : Ended (level.rank + 1) kinds kind)
    (hop : level.operator? kind = none) : Ended level.rank kinds kind := by
  refine ⟨fun level' hlevel => ?_, h.2⟩
  rcases Nat.eq_or_lt_of_le hlevel with heq | hlt
  · have hsame : level = level' := by cases level <;> cases level' <;> first | rfl | cases heq
    rwa [← hsame]
  · exact h.1 level' hlt

/-- What is whole by itself is taken as an expression if no dot goes on with it. -/
theorem takes_operand (taken : List Token) (hshape : Shape 5 (taken.map Token.kind))
    (hdot : (first rest).kind = .dot →
      ∀ groups, run ⟨.operand, groups⟩ (taken.map Token.kind ++ [.dot]) = none) :
    Takes 5 (taken ++ rest) rest := by
  refine ⟨taken, rfl, hshape, fun level hlevel => ?_, fun h => ?_⟩
  · have hle := level.rank_le
    omega
  · rw [h]
    exact hdot h

/-- An expression goes on with an operator, a dot or the end of what it is in. -/
theorem Ended.run_eq_none (groups : List Enclosure) (h : Ended 0 kinds kind)
    (hshape : Shape k kinds)
    (hcomma : kind = .comma → groups.head? ≠ some .arguments)
    (hclose : kind = .rightParen → groups = []) (heof : kind = .eof → groups ≠ []) :
    run ⟨.operand, groups⟩ (kinds ++ [kind]) = none := by
  by_cases hdot : kind = .dot
  · exact h.2 hdot groups
  · obtain ⟨dot, hrun⟩ := hshape.completes
    rw [Progress.run_append_of_some (hrun groups), Progress.run_singleton,
      Progress.next?_more_of_ne_dot hdot]
    exact Progress.follow?_eq_none (fun level => h.1 level (Nat.zero_le _)) hcomma hclose heof

theorem run_dot_of_closed {p : Progress} {dot : Bool} {group : Enclosure}
    (h : p.run kinds = some ⟨.more dot, group :: groups⟩) :
    p.run (kinds ++ [.rightParen] ++ [.dot]) = none := by
  rw [List.append_assoc, List.singleton_append, Progress.run_rightParen h, Progress.run_singleton]
  rfl

/-! ## Readers -/

theorem yields_literal {lexeme : String} {offset : Nat} {value : Value} {e : Expr}
    (hvalue : literalOf kind = some value) :
    Yields (fun read : Taken Expr (tokens.length + 1) =>
        Takes 5 (⟨kind, lexeme, offset⟩ :: tokens) read.rest) bad
      (do
        let nodes ← countNode ctx nodes
        return ⟨e, nodes, tokens, Nat.lt_succ_self _⟩) := by
  refine yields_countNode fun count => ?_
  refine takes_operand [⟨kind, lexeme, offset⟩] (.literal hvalue) fun _ groups => ?_
  cases kind <;> first | rfl | cases hvalue

theorem yields_fieldReference {name lexeme : String} {offset : Nat} :
    Yields (fun read => Takes 5 (⟨.field name, lexeme, offset⟩ :: tokens) read.rest)
      (Blames (Shape 5) [] (⟨.field name, lexeme, offset⟩ :: tokens))
      (fieldReference ctx nodes name offset tokens) := by
  rw [fieldReference]
  split
  · trivial
  · split
    · rename_i lexeme₁ offset₁ name' lexeme' offset' rest
      split
      · split
        · trivial
        · refine yields_countNode fun count => ?_
          exact takes_operand [⟨.field name, lexeme, offset⟩, ⟨.dot, lexeme₁, offset₁⟩,
            ⟨.field name', lexeme', offset'⟩] .lookup fun _ groups => rfl
      · trivial
    · rename_i lexeme₁ offset₁ rest hremote
      have hnext : ∀ name, (first rest).kind ≠ .field name :=
        fun name => first_ne (by simp) (hremote name)
      exact yields_unexpected ⟨[⟨.field name, lexeme, offset⟩, ⟨.dot, lexeme₁, offset₁⟩], rest,
        rfl, rfl, rfl, ⟨[.field name], .lookup⟩,
        fun groups => (Progress.run_singleton _ _).trans (Progress.next?_remote hnext)⟩
    · rename_i hdot
      refine yields_countNode fun count => ?_
      exact takes_operand [⟨.field name, lexeme, offset⟩] .field
        fun h => absurd h (first_ne (by simp) hdot)

/-- An impossible token at which an expression is due. -/
theorem blames_first (h : ∀ groups, Progress.begin? groups (first tokens).kind = none) :
    Blames (Shape 5) [] tokens (first tokens).offset (first tokens).kind :=
  ⟨[], tokens, rfl, rfl, rfl, ⟨[.number .one], .literal rfl⟩,
    fun groups => (Progress.run_singleton _ _).trans (h groups)⟩

/-! ## Parts of an expression -/

section

variable {lexeme lexeme' lexeme'' name : String} {offset offset' offset'' : Nat}
  {after : List Token}

theorem Takes.negate (h : Takes 4 inside rest) :
    Takes 4 (⟨.minus, lexeme, offset⟩ :: inside) rest := by
  obtain ⟨operand, rfl, hshape, hended⟩ := h
  exact ⟨_ :: operand, rfl, hshape.negate, hended⟩

theorem Takes.parens (h : Takes 0 inside (⟨.rightParen, lexeme', offset'⟩ :: after)) :
    Takes 5 (⟨.leftParen, lexeme, offset⟩ :: inside) after := by
  obtain ⟨taken, rfl, hshape, -⟩ := h
  obtain ⟨dot, hrun⟩ := hshape.completes
  have hparens : Takes 5 (⟨.leftParen, lexeme, offset⟩ :: (taken ++
      [⟨.rightParen, lexeme', offset'⟩]) ++ after) after := by
    refine takes_operand _ (by simpa using hshape.parens) fun _ groups => ?_
    simpa [Progress.run_leftParen] using run_dot_of_closed (hrun (.expression :: groups))
  simpa using hparens

/-- An expression in parentheses ends where only their end may come. -/
theorem Takes.blames_closing (h : Takes 0 inside rest)
    (hnext : (first rest).kind ≠ .rightParen) :
    Blames (Shape 5) [] (⟨.leftParen, lexeme, offset⟩ :: inside) (first rest).offset
      (first rest).kind := by
  obtain ⟨taken, rfl, hshape, hended⟩ := h
  exact ⟨_ :: taken, rest, rfl, rfl, rfl, ⟨[.rightParen], hshape.parens⟩,
    fun groups => hended.run_eq_none (.expression :: groups) hshape (by simp)
      (fun h => absurd h hnext) (by simp)⟩

theorem Takes.single (h : Takes 0 tokens rest) (hnext : (first rest).kind ≠ .comma) :
    TakesArguments tokens rest := by
  obtain ⟨taken, rfl, hshape, hended⟩ := h
  exact ⟨taken, rfl, .single hshape, fun hclose groups => hended.run_eq_none _ hshape
    (fun h => absurd h hnext) (fun h => absurd h hclose) (by simp)⟩

/-- After an argument and a comma, another argument is due. -/
theorem Takes.run_comma (h : Takes 0 tokens (⟨.comma, lexeme, offset⟩ :: after)) :
    ∃ front, tokens = front ++ after ∧
      (∀ kinds, Arguments kinds → Arguments (front.map Token.kind ++ kinds)) ∧
      ∀ groups kinds, run ⟨.operand, .arguments :: groups⟩ (front.map Token.kind ++ kinds) =
        run ⟨.operand, .arguments :: groups⟩ kinds := by
  obtain ⟨taken, rfl, hshape, -⟩ := h
  obtain ⟨dot, hrun⟩ := hshape.completes
  refine ⟨taken ++ [⟨.comma, lexeme, offset⟩], by simp,
    fun kinds hargs => by simpa using Arguments.cons hshape hargs, fun groups kinds => ?_⟩
  rw [List.map_append, List.append_assoc]
  exact Progress.run_comma (hrun _) kinds

theorem Takes.cons (h : Takes 0 tokens (⟨.comma, lexeme, offset⟩ :: after))
    (hmore : TakesArguments after rest) : TakesArguments tokens rest := by
  obtain ⟨front, rfl, hwhole, hafter⟩ := h.run_comma
  obtain ⟨others, rfl, hargs, hstuck⟩ := hmore
  refine ⟨front ++ others, by simp, by simpa using hwhole _ hargs, fun hnext groups => ?_⟩
  rw [List.map_append, List.append_assoc, hafter]
  exact hstuck hnext groups

theorem Takes.blames_cons (h : Takes 0 tokens (⟨.comma, lexeme, offset⟩ :: after))
    (hmore : Blames Arguments [.arguments] after position found) :
    Blames Arguments [.arguments] tokens position found := by
  obtain ⟨front, rfl, hwhole, hafter⟩ := h.run_comma
  exact hmore.within front [] (fun kinds hargs => by simpa using hwhole kinds hargs)
    fun groups => ⟨groups, fun kinds _ => hafter groups kinds⟩

theorem TakesArguments.call
    (h : TakesArguments inside (⟨.rightParen, lexeme'', offset''⟩ :: after)) :
    Takes 5 (⟨.identifier name, lexeme, offset⟩ :: ⟨.leftParen, lexeme', offset'⟩ :: inside)
      after := by
  obtain ⟨taken, rfl, hargs, -⟩ := h
  obtain ⟨dot, hrun⟩ := hargs.completes
  have hcall : Takes 5 (⟨.identifier name, lexeme, offset⟩ :: ⟨.leftParen, lexeme', offset'⟩ ::
      (taken ++ [⟨.rightParen, lexeme'', offset''⟩]) ++ after) after := by
    refine takes_operand _ (by simpa using hargs.call name) fun _ groups => ?_
    have hclosed := run_dot_of_closed (hrun groups)
    rw [List.append_assoc, ← hargs.run_call name] at hclosed
    simpa using hclosed
  simpa using hcall

/-- Arguments end where only the end of the call may come. -/
theorem TakesArguments.blames_closing (h : TakesArguments inside rest)
    (hnext : (first rest).kind ≠ .rightParen) :
    Blames (Shape 5) [] (⟨.identifier name, lexeme, offset⟩ :: ⟨.leftParen, lexeme', offset'⟩ ::
      inside) (first rest).offset (first rest).kind := by
  obtain ⟨taken, rfl, hargs, hstuck⟩ := h
  exact ⟨_ :: _ :: taken, rest, rfl, rfl, rfl, ⟨[.rightParen], hargs.call name⟩,
    fun groups => (hargs.run_call name _).trans (hstuck hnext groups)⟩

end

/-- A call yields what its arguments do. -/
theorem yields_call {name lexeme : String} {offset : Nat}
    (h : ∀ opening inside, tokens = opening :: inside →
      Yields (fun read => TakesArguments inside read.rest) (Blames Arguments [.arguments] inside)
        (arguments ctx n nodes inside)) :
    Yields (fun read => Takes 5 (⟨.identifier name, lexeme, offset⟩ :: tokens) read.rest)
      (Blames (Shape 5) [] (⟨.identifier name, lexeme, offset⟩ :: tokens))
      (primary ctx n nodes (⟨.identifier name, lexeme, offset⟩ :: tokens)) := by
  by_cases hcall : ∃ lexeme' offset' inside, tokens = ⟨.leftParen, lexeme', offset'⟩ :: inside
  · obtain ⟨lexeme', offset', inside, rfl⟩ := hcall
    by_cases hempty : ∃ lexeme'' offset'' rest, inside = ⟨.rightParen, lexeme'', offset''⟩ :: rest
    · obtain ⟨lexeme'', offset'', rest, rfl⟩ := hempty
      rw [primary]
      refine yields_countNode fun count => ?_
      exact takes_operand [⟨.identifier name, lexeme, offset⟩, ⟨.leftParen, lexeme', offset'⟩,
        ⟨.rightParen, lexeme'', offset''⟩] .noArguments fun _ groups => rfl
    · have hclose : (first inside).kind ≠ .rightParen := first_ne (by simp)
        fun lexeme'' offset'' rest h => hempty ⟨lexeme'', offset'', rest, h⟩
      -- the equation for a call that does not close at once
      rw [primary.eq_7]
      · refine (h _ inside rfl).bind (fun position found h => ?_) fun args _ htakes => ?_
        · refine h.within [⟨.identifier name, lexeme, offset⟩, ⟨.leftParen, lexeme', offset'⟩]
            [.rightParen] (fun kinds hargs => hargs.call name)
            fun groups => ⟨groups, fun kinds hhead => ?_⟩
          obtain ⟨kinds, rfl⟩ := List.head?_eq_some_iff.mp hhead
          exact Progress.run_argument hclose kinds
        · split
          · rename_i hrest
            rw [hrest] at htakes
            exact yields_countNode fun count => htakes.call
          · rename_i hother
            exact yields_unexpected (htakes.blames_closing (first_ne (by simp) hother))
      all_goals
        intros
        exact hempty ⟨_, _, _, ‹_›⟩
  · -- the equation for a name that no parenthesis follows
    rw [primary.eq_8]
    · have hopen : (first tokens).kind ≠ .leftParen := first_ne (by simp)
        fun lexeme' offset' inside h => hcall ⟨lexeme', offset', inside, h⟩
      exact yields_unexpected ⟨[⟨.identifier name, lexeme, offset⟩], tokens, rfl, rfl, rfl,
        ⟨[.leftParen, .rightParen], .noArguments⟩,
        fun groups => (Progress.run_singleton _ _).trans (Progress.next?_opening hopen)⟩
    all_goals
      intros
      exact hcall ⟨_, _, _, ‹_›⟩

-- by the recursion of the readers: what a reader takes ends where none of its own operators comes
-- next, so that a complaint is always left to the reader that knows which groups are open
mutual

theorem yields_expression {n nodes : Nat} {tokens : List Token} :
    Yields (fun read => Takes 0 tokens read.rest) (Blames (Shape 0) [] tokens)
      (expression ctx n nodes tokens) := by
  rw [expression]
  exact yields_enter fun deeper => yields_chain
termination_by 16 * tokens.length + 12

theorem yields_chain {n nodes : Nat} {level : Level} {tokens : List Token} :
    Yields (fun read => Takes level.rank tokens read.rest) (Blames (Shape level.rank) [] tokens)
      (chain ctx n nodes level tokens) := by
  have hrank := level.rank_le
  rw [chain]
  refine yields_operand.bind (fun _ _ h => h.imp fun _ hshape => hshape.mono (Nat.le_succ _))
    fun first hfirst htakes => ?_
  obtain ⟨taken, htokens, hshape, hended⟩ := htakes
  have hlt := first.rest_lt
  have hrest : Yields _ _ (chainRest ctx n first.nodes level first.result first.rest) :=
    yields_chainRest (hshape.mono (Nat.le_succ _)) hended
  rw [← htokens] at hrest
  exact hrest.bind (fun _ _ h => h) fun whole _ h => h
termination_by 16 * tokens.length + (11 - 2 * level.rank)

theorem yields_operand {n nodes : Nat} {level : Level} {tokens : List Token} :
    Yields (fun read => Takes (level.rank + 1) tokens read.rest)
      (Blames (Shape (level.rank + 1)) [] tokens) (operand ctx n nodes level tokens) := by
  have hrank := level.rank_le
  cases hnext : level.tighter? with
  | some next =>
    have hnextRank := Level.rank_tighter hnext
    have hnextLe := next.rank_le
    rw [operand_of_tighter hnext, ← hnextRank]
    exact yields_chain
  | none =>
    have htightest : level.rank + 1 = 4 := by cases level <;> first | rfl | cases hnext
    rw [operand_tightest hnext, htightest]
    exact yields_unary
termination_by 16 * tokens.length + (10 - 2 * level.rank)

/-- The operators of a level and their right operands are taken together with what is on their
left. -/
theorem yields_chainRest {n nodes : Nat} {level : Level} {left : Expr} {taken tokens : List Token}
    (hleft : Shape level.rank (taken.map Token.kind))
    (hended : Ended (level.rank + 1) (taken.map Token.kind) (first tokens).kind) :
    Yields (fun read => Takes level.rank (taken ++ tokens) read.rest)
      (Blames (Shape level.rank) [] (taken ++ tokens))
      (chainRest ctx n nodes level left tokens) := by
  cases tokens with
  | nil =>
    rw [chainRest]
    exact ⟨taken, rfl, hleft, fun level _ => by cases level <;> rfl, hended.2⟩
  | cons token tokens =>
    have hlength : (token :: tokens).length = tokens.length + 1 := rfl
    rw [chainRest]
    cases hop : level.operator? token.kind with
    | none => exact ⟨taken, rfl, hleft, hended.of_none hop⟩
    | some op =>
      obtain ⟨hkind, rfl⟩ := eq_of_operator? hop
      obtain ⟨dot, hrun⟩ := hleft.completes
      have hafter : ∀ groups kinds, run ⟨.operand, groups⟩
          ((taken ++ [token]).map Token.kind ++ kinds) = run ⟨.operand, groups⟩ kinds := by
        intro groups kinds
        rw [List.map_append, List.append_assoc, List.map_singleton, hkind]
        exact Progress.run_operator (hrun groups) op kinds
      have happend : taken ++ token :: tokens = taken ++ [token] ++ tokens := by simp
      rw [happend]
      refine yields_operand.bind (fun position found h => ?_) fun right hright htakes => ?_
      · exact h.within _ [] (fun kinds hshape => by simpa [hkind] using hleft.binary hshape)
          fun groups => ⟨groups, fun kinds _ => hafter groups kinds⟩
      · have hlt := right.rest_lt
        obtain ⟨operand, htokens, hshape, hops, hdot⟩ := htakes
        have hbinary : Shape op.level.rank ((taken ++ [token] ++ operand).map Token.kind) := by
          simpa [hkind] using hleft.binary hshape
        have hmore : Ended (op.level.rank + 1) ((taken ++ [token] ++ operand).map Token.kind)
            (first right.rest).kind := by
          refine ⟨hops, fun h groups => ?_⟩
          rw [List.map_append, List.append_assoc, hafter]
          exact hdot h groups
        refine yields_countNode fun count => ?_
        have hrest : Yields _ _ (chainRest ctx n count op.level (.binary op left right.result)
            right.rest) := yields_chainRest hbinary hmore
        rw [List.append_assoc _ operand, ← htokens] at hrest
        exact hrest.bind (fun _ _ h => h) fun whole _ h => h
termination_by 16 * tokens.length + 0

theorem yields_unary {n nodes : Nat} {tokens : List Token} :
    Yields (fun read => Takes 4 tokens read.rest) (Blames (Shape 4) [] tokens)
      (unary ctx n nodes tokens) := by
  by_cases hminus : ∀ t ∈ tokens.head?, t.kind ≠ .minus
  · rw [unary_eq_primary hminus]
    exact (yields_primary hminus).imp (fun _ h => h.mono (by decide) (by decide))
      fun _ _ h => h.imp fun _ hshape => hshape.mono (by decide)
  · obtain ⟨⟨kind, lexeme, offset⟩, hhead, hkind⟩ : ∃ t ∈ tokens.head?, t.kind = .minus := by
      simpa using hminus
    obtain ⟨inside, rfl⟩ := List.head?_eq_some_iff.mp hhead
    cases hkind
    have hlength : (⟨.minus, lexeme, offset⟩ :: inside : List Token).length = inside.length + 1 :=
      rfl
    rw [unary]
    refine yields_enter fun deeper => yields_unary.bind (fun position found h => ?_)
      fun inner _ htakes => yields_countNode fun count => ?_
    · exact h.within [⟨.minus, lexeme, offset⟩] []
        (fun kinds hshape => by simpa using hshape.negate) fun groups => ⟨groups, fun _ _ => rfl⟩
    · exact htakes.negate
termination_by 16 * tokens.length + 2

theorem yields_primary {n nodes : Nat} {tokens : List Token}
    (hminus : ∀ t ∈ tokens.head?, t.kind ≠ .minus) :
    Yields (fun read => Takes 5 tokens read.rest) (Blames (Shape 5) [] tokens)
      (primary ctx n nodes tokens) := by
  cases tokens with
  | nil =>
    unfold primary
    exact yields_unexpected (blames_first fun groups => rfl)
  | cons token tokens =>
    have hlength : (token :: tokens).length = tokens.length + 1 := rfl
    obtain ⟨kind, lexeme, offset⟩ := token
    cases kind with
    | number | text | boolean =>
      rw [primary]
      exact yields_literal rfl
    | field name =>
      rw [primary]
      exact yields_fieldReference
    | leftParen =>
      rw [primary]
      refine yields_expression.bind (fun position found h => ?_) fun inner _ htakes => ?_
      · exact h.within [⟨.leftParen, lexeme, offset⟩] [.rightParen]
          (fun kinds hshape => hshape.parens)
          fun groups => ⟨.expression :: groups, fun kinds _ => rfl⟩
      · split
        · rename_i hrest
          rw [hrest] at htakes
          exact htakes.parens
        · rename_i hother
          exact yields_unexpected (htakes.blames_closing (first_ne (by simp) hother))
    | identifier name =>
      refine yields_call fun opening inside htokens => ?_
      have hinside : tokens.length = inside.length + 1 := by rw [htokens, List.length_cons]
      exact yields_arguments
    | minus => exact absurd rfl (hminus _ rfl)
    | _ =>
      unfold primary
      exact yields_unexpected (blames_first fun groups => rfl)
termination_by 16 * tokens.length + 1

theorem yields_arguments {n nodes : Nat} {tokens : List Token} :
    Yields (fun read => TakesArguments tokens read.rest) (Blames Arguments [.arguments] tokens)
      (arguments ctx n nodes tokens) := by
  rw [arguments]
  refine yields_expression.bind (fun position found h => ?_) fun head _ htakes => ?_
  · exact h.within [] [] (fun kinds hshape => by simpa using Arguments.single hshape)
      fun groups => ⟨.arguments :: groups, fun kinds _ => rfl⟩
  · have hlt := head.rest_lt
    split
    · rename_i lexeme offset after hcomma
      have hlength : head.rest.length = after.length + 1 := by rw [hcomma, List.length_cons]
      rw [hcomma] at htakes
      exact yields_arguments.bind (fun _ _ h => htakes.blames_cons h)
        fun more _ hmore => htakes.cons hmore
    · rename_i hother
      exact htakes.single (first_ne (by simp) hother)
termination_by 16 * tokens.length + 13

end

/-- The mark of the end is in no expression, so that there is a token after each part of one. -/
theorem exists_next {front before : List Token} {last : Token} {more : List TokenKind}
    (hlast : last.kind = .eof) (htokens : front ++ [last] = before ++ rest)
    (hshape : Shape 0 (before.map Token.kind ++ more)) : ∃ token after, rest = token :: after := by
  cases rest with
  | cons token after => exact ⟨token, after, rfl⟩
  | nil =>
    rw [List.append_nil] at htokens
    obtain ⟨dot, hrun⟩ := hshape.completes
    have hrun := hrun []
    rw [← htokens, List.map_append, List.map_singleton, hlast, List.append_assoc] at hrun
    cases Progress.run_eof hrun

/-- After a whole formula, only the mark of the end may come. -/
theorem yields_wholeFormula (ctx : Context) {last : Token} (hlast : last.kind = .eof)
    (htokens : tokens = taken ++ [last]) : Yields (fun _ => True)
      (fun position found => ∃ before token after, tokens = before ++ token :: after ∧
        token.offset = position ∧ token.kind = found ∧
        (∃ more, Shape 0 (before.map Token.kind ++ more)) ∧
        run ⟨.operand, []⟩ (before.map Token.kind ++ [found]) = none)
      (wholeFormula ctx tokens) := by
  rw [wholeFormula]
  refine yields_expression.bind (fun position found h => ?_) fun read _ htakes => ?_
  · obtain ⟨before, rest, hsplit, rfl, rfl, ⟨more, hmore⟩, hstuck⟩ := h
    obtain ⟨token, after, rfl⟩ := exists_next hlast (htokens.symm.trans hsplit) hmore
    exact ⟨before, token, after, hsplit, rfl, rfl, ⟨more, hmore⟩, hstuck []⟩
  · split
    · split <;> trivial
    · rename_i hother
      obtain ⟨before, hsplit, hshape, hended⟩ := htakes
      have hwhole : Shape 0 (before.map Token.kind ++ []) := by rwa [List.append_nil]
      obtain ⟨token, after, hrest⟩ := exists_next hlast (htokens.symm.trans hsplit) hwhole
      rw [hrest] at hsplit hended hother ⊢
      have hnext : token.kind ≠ .eof :=
        fun h => hother token.lexeme token.offset after (by rw [← h])
      exact ⟨before, token, after, hsplit, rfl, rfl, ⟨[], hwhole⟩,
        hended.run_eq_none _ hshape (by simp) (fun _ => rfl) fun h => absurd h hnext⟩

end Parser

namespace Formula

open ComputedFields.Progress (run)

theorem Shaped.run_eq_end {kinds : List TokenKind} (h : Shaped kinds) :
    run ⟨.operand, []⟩ kinds = some ⟨.nothing, []⟩ := by
  obtain ⟨body, rfl, hbody⟩ := h
  obtain ⟨dot, hrun⟩ := hbody.completes
  rw [Progress.run_append_of_some (hrun []), Progress.run_singleton,
    Progress.next?_more_of_ne_dot (by simp)]
  rfl

theorem not_viable {kinds : List TokenKind} (h : run ⟨.operand, []⟩ kinds = none) :
    ¬ Viable kinds := by
  rintro ⟨more, hshaped⟩
  cases (Progress.run_append_of_none h more).symm.trans hshaped.run_eq_end

end Formula

/-- A complaint of the parser about a token is about the first one that no formula can have there:
the tokens before it can be extended to those of a formula, and those up to it cannot. -/
theorem parse_blames_first_impossible {r : Resolver} {limits : Limits} {source : String}
    {tokens : List Token} {position : Nat} {expected : Expectation} {found : TokenKind}
    (htokens : tokenize source = .ok tokens)
    (h : Expr.parse r limits source = .error (.parse position expected found)) :
    ∃ before token after, tokens = before ++ token :: after ∧ token.offset = position ∧
      token.kind = found ∧ Formula.Viable (before.map Token.kind) ∧
      ¬ Formula.Viable (before.map Token.kind ++ [token.kind]) := by
  obtain ⟨front, last, hfront, hlast, -⟩ := Token.plain_of_tokensFrom htokens
  have hwhole := Parser.yields_wholeFormula ⟨r, limits⟩ hlast hfront
  have hparse : Parser.wholeFormula ⟨r, limits⟩ tokens = .error (.parse position expected found) :=
    (bind_of_ok htokens _).symm.trans h
  rw [hparse] at hwhole
  obtain ⟨before, token, after, hsplit, hposition, rfl, ⟨more, hmore⟩, hstuck⟩ := hwhole
  have hviable : Formula.Viable (before.map Token.kind) :=
    ⟨more ++ [.eof], before.map Token.kind ++ more, by simp, hmore⟩
  exact ⟨before, token, after, hsplit, hposition, rfl, hviable, Formula.not_viable hstuck⟩

theorem Token.refusesSource_of_tokensFrom {offset : Nat} {cs : List Char} {err : FormulaError}
    (h : tokensFrom offset cs = .error err) : err.RefusesSource := by
  fun_induction tokensFrom offset cs with
  | case1 => cases h
  | case2 offset c cs _ ih => exact ih h
  | case3 =>
    cases h
    trivial
  | case4 offset c cs _ kind extra _ lexeme err' hrest ih =>
    cases h
    exact ih hrest
  | case5 => cases h

/-- A source text is refused for what is in it. -/
theorem Expr.refusesSource_of_parse {r : Resolver} {limits : Limits} {source : String}
    {err : FormulaError} (h : Expr.parse r limits source = .error err) : err.RefusesSource := by
  cases htokens : tokenize source with
  | error err' =>
    rw [Expr.parse, htokens] at h
    cases h
    exact Token.refusesSource_of_tokensFrom htokens
  | ok tokens =>
    obtain ⟨front, last, hfront, hlast, -⟩ := Token.plain_of_tokensFrom htokens
    have hwhole := Parser.yields_wholeFormula ⟨r, limits⟩ hlast hfront
    have hparse : Parser.wholeFormula ⟨r, limits⟩ tokens = .error err :=
      (bind_of_ok htokens _).symm.trans h
    rw [hparse] at hwhole
    exact hwhole.refusesSource

/-- The tokens of a parenthesis that holds two numbers. -/
def pairTokens : List Token :=
  [⟨.minus, "-", 0⟩, ⟨.leftParen, "(", 1⟩, ⟨.number .one, "1", 2⟩, ⟨.comma, ",", 3⟩,
    ⟨.number .one, "1", 5⟩, ⟨.rightParen, ")", 6⟩, ⟨.eof, "", 7⟩]

theorem parse_pair_blames_comma :
    tokenize "-(1, 1)" = .ok pairTokens ∧
      Expr.parse .lenient {} "-(1, 1)" = .error (.parse 3 .closeParen .comma) ∧
      ∃ before token after, pairTokens = before ++ token :: after ∧ token.offset = 3 ∧
        token.kind = .comma ∧ Formula.Viable (before.map Token.kind) ∧
        ¬ Formula.Viable (before.map Token.kind ++ [token.kind]) := by
  have htokens : tokenize "-(1, 1)" = .ok pairTokens := by cbv
  have hparse : Expr.parse .lenient {} "-(1, 1)" = .error (.parse 3 .closeParen .comma) := by cbv
  exact ⟨htokens, hparse, parse_blames_first_impossible htokens hparse⟩

end ComputedFields
