import ComputedFields.Proofs.Formula.Coupled

/-!
# Limits on formulas

Limits refuse formulas and change none. Under two limits the parser does the same, but that the
smaller limits may stop it; they do not if they leave room for all tokens. So there is a result
without limits, and whether it is a result within limits too is told by the nodes and the depth of
the tree and by the nesting of the source.
-/

namespace ComputedFields

instance : LE Limits := ⟨fun a b => a.maxDepth ≤ b.maxDepth ∧ a.maxNodes ≤ b.maxNodes⟩

variable {α : Type} {r : Resolver} {limits limits' : Limits} {e : Expr}

/-! ## Results under two limits -/

/-- A result is the refusal of what goes beyond a limit. -/
def Limits.Exceeded (limits : Limits) (x : Except FormulaError α) : Prop :=
  ∃ actual, limits.maxDepth < actual ∧
      x = .error (.limitExceeded .depth limits.maxDepth actual) ∨
    limits.maxNodes < actual ∧ x = .error (.limitExceeded .nodes limits.maxNodes actual)

theorem Limits.not_exceeded_ok {a : α} :
    ¬ limits.Exceeded (.ok a : Except FormulaError α) := by
  rintro ⟨actual, ⟨-, h⟩ | ⟨-, h⟩⟩ <;> cases h

namespace Parser

/-- Limits do not leave room for a depth and a number of nodes, and refuse with the error. -/
def Short (limits : Limits) (depth nodes : Nat) (err : FormulaError) : Prop :=
  (limits.maxDepth < depth ∨ limits.maxNodes < nodes) ∧
    limits.Exceeded (.error err : Except FormulaError Expr)

variable {nodes : Nat} {tokens : List Token}

theorem Short.mono {depth depth' nodes nodes' : Nat} {err : FormulaError}
    (hdepth : depth ≤ depth') (hnodes : nodes ≤ nodes') (h : Short limits depth nodes err) :
    Short limits depth' nodes' err :=
  ⟨h.1.imp (Nat.lt_of_lt_of_le · hdepth) (Nat.lt_of_lt_of_le · hnodes), h.2⟩

/-- A check against a limit is passed under the larger limit too. -/
theorem sameUnless_check {limit : Limit} {bound bound' actual : Nat} {a : α}
    {excuse : FormulaError → Prop} (hle : bound ≤ bound')
    (hover : bound < actual → excuse (.limitExceeded limit bound actual)) :
    SameUnless excuse
      (if bound < actual then .error (.limitExceeded limit bound actual) else .ok a)
      (if bound' < actual then .error (.limitExceeded limit bound' actual) else .ok a) := by
  by_cases h : bound < actual
  · rw [if_pos h]
    exact .inr ⟨_, rfl, hover h⟩
  · rw [if_neg h, if_neg (by omega)]
    exact .refl _

theorem sameUnless_countNode (hle : limits ≤ limits') (nodes : Nat) :
    SameUnless (Short limits 0 (nodes + 1)) (countNode ⟨r, limits⟩ nodes)
      (countNode ⟨r, limits'⟩ nodes) :=
  sameUnless_check hle.2 fun hover => ⟨.inr hover, _, .inr ⟨hover, rfl⟩⟩

/-- Two limits refuse nothing but what goes beyond the smaller ones. -/
theorem coupled_limits (r : Resolver) (hle : limits ≤ limits') :
    Coupled ⟨r, limits⟩ ⟨r, limits'⟩ (Short limits) where
  mono hdepth hnodes _ := Short.mono hdepth hnodes
  enter _ := sameUnless_check hle.1 fun hover => ⟨.inl hover, _, .inl ⟨hover, rfl⟩⟩
  countNode := sameUnless_countNode hle
  fieldReference nodes name offset tokens := by
    have hcount : SameUnless _ (countNode ⟨r, limits⟩ nodes) _ := sameUnless_countNode hle nodes
    rw [fieldReference, fieldReference]
    cases r.resolve name with
    | none => exact .refl _
    | some f =>
      dsimp only
      split
      · split
        · split
          · exact .refl _
          · exact hcount.bind fun _ _ => .refl _
        · exact .refl _
      · exact .refl _
      · exact hcount.bind fun _ _ => .refl _

/-- The depth of the tree, which is checked last, is no more than the number of its nodes. -/
theorem sameUnless_wholeFormula (hle : limits ≤ limits') :
    SameUnless (Short limits (1 + tokens.length) tokens.length) (wholeFormula ⟨r, limits⟩ tokens)
      (wholeFormula ⟨r, limits'⟩ tokens) := by
  have hread : SameUnless _ (expression ⟨r, limits⟩ 0 0 tokens) _ :=
    (coupled_limits r hle).expression
  rw [Nat.zero_add, Nat.zero_add] at hread
  rw [wholeFormula, wholeFormula]
  refine hread.bind fun read hread => ?_
  have haccepts := accepts_expression ⟨read.rest_lt, hread⟩
  have hcount := haccepts.count_le
  have hmade := haccepts.made_eq
  have hdepth := read.result.depth_le_nodeCount
  split
  · exact sameUnless_check hle.1 fun hover =>
      ⟨.inl (Nat.lt_of_lt_of_le hover (by omega)), _, .inl ⟨hover, rfl⟩⟩
  · exact .refl _

end Parser

namespace Expr

open ComputedFields.Parser
open Limits (not_exceeded_ok)

/-! ## Parsing within limits -/

variable {source : String} {tokens : List Token}

/-- The smaller limits give the same as the larger ones or refuse, and that only if they leave no
room for all tokens. -/
theorem parse_eq_or_short (hle : limits ≤ limits') :
    parse r limits source = parse r limits' source ∨
      limits.Exceeded (parse r limits source) ∧ ∃ tokens, tokenize source = .ok tokens ∧
        (limits.maxDepth < 1 + tokens.length ∨ limits.maxNodes < tokens.length) := by
  rw [parse, parse]
  cases tokenize source with
  | error err => exact .inl rfl
  | ok tokens =>
    have hwhole : SameUnless _ (wholeFormula ⟨r, limits⟩ tokens) _ := sameUnless_wholeFormula hle
    rcases hwhole with hsame | ⟨err, herr, hshort⟩
    · exact .inl hsame
    · refine .inr ⟨?_, tokens, rfl, hshort.1⟩
      show limits.Exceeded (wholeFormula ⟨r, limits⟩ tokens)
      rw [herr]
      exact hshort.2

/-- The nesting of parentheses, arguments and signs in a source text, with the top level as one. -/
def nesting (source : String) : Nat :=
  match tokenize source with
  | .ok tokens => height (tokens.map Token.kind) + 1
  | .error _ => 0

/-- A source text is accepted as the tree that its tokens stand for, if the nodes, the depth and the
nesting are within the limits. -/
theorem parse_eq_ok_iff (htokens : tokenize source = .ok tokens) :
    parse r limits source = .ok e ↔ Formula.Derived r tokens e ∧
      e.nodeCount ≤ limits.maxNodes ∧ e.depth ≤ limits.maxDepth ∧
      nesting source ≤ limits.maxDepth := by
  obtain ⟨before, last, rfl, hlast, hbefore⟩ := Token.plain_of_tokensFrom htokens
  have hkinds : (before ++ [last]).map Token.kind = before.map Token.kind ++ [.eof] := by
    simp [hlast]
  rw [nesting, parse, htokens]
  dsimp only
  rw [hkinds]
  show wholeFormula ⟨r, limits⟩ (before ++ [last]) = .ok e ↔ _
  constructor
  · intro h
    obtain ⟨⟨taken, last', rest, htaken, hlast', hderives, hnested⟩, hdepth, hcount⟩ :=
      admits_of_wholeFormula h
    obtain ⟨rfl, rfl⟩ := Token.eq_of_eof hbefore hlast' htaken
    refine ⟨⟨_, hkinds, hderives⟩, hcount, hdepth, ?_⟩
    rwa [hderives.nests.height_eof, Nat.add_comm]
  · rintro ⟨⟨kinds, hkinds', hderives⟩, hcount, hdepth, hnested⟩
    cases List.append_cancel_right (hkinds'.symm.trans hkinds)
    rw [hderives.nests.height_eof, Nat.add_comm] at hnested
    have hread : Reads (expression ⟨r, limits⟩ 0 0 (before ++ [last])) e _ [last] :=
      hderives.reads_within rfl hnested (by omega) (ends_eof hlast)
    exact wholeFormula_eq_ok.mpr ⟨_, last, [], hread, hlast, hdepth⟩

/-- What parsing without limits gives: the result within all limits that are large enough. -/
def ParsesTo (r : Resolver) (source : String) (result : Except FormulaError Expr) : Prop :=
  ∃ enough : Limits, ∀ limits, enough ≤ limits → parse r limits source = result

variable {result result' : Except FormulaError Expr}

/-- There are limits that are large enough, since none are needed beyond the number of tokens. -/
theorem exists_parsesTo (r : Resolver) (source : String) : ∃ result, ParsesTo r source result := by
  cases htokens : tokenize source with
  | error err => exact ⟨.error err, ⟨0, 0⟩, fun limits _ => by rw [parse, htokens]; rfl⟩
  | ok tokens =>
    let enough : Limits := ⟨1 + tokens.length, tokens.length⟩
    refine ⟨parse r enough source, enough, fun limits hle => ?_⟩
    rcases parse_eq_or_short hle with hsame | ⟨-, tokens', htokens', hshort⟩
    · exact hsame.symm
    · cases htokens.symm.trans htokens'
      exact absurd hshort (not_or.mpr ⟨Nat.lt_irrefl _, Nat.lt_irrefl _⟩)

theorem ParsesTo.unique (h : ParsesTo r source result) (h' : ParsesTo r source result') :
    result = result' := by
  obtain ⟨enough, h⟩ := h
  obtain ⟨enough', h'⟩ := h'
  let larger : Limits :=
    ⟨max enough.maxDepth enough'.maxDepth, max enough.maxNodes enough'.maxNodes⟩
  rw [← h larger ⟨Nat.le_max_left _ _, Nat.le_max_left _ _⟩,
    h' larger ⟨Nat.le_max_right _ _, Nat.le_max_right _ _⟩]

/-- Limits change nothing but what they refuse. -/
theorem ParsesTo.parse_eq_or_exceeded (h : ParsesTo r source result) (limits : Limits) :
    parse r limits source = result ∨ limits.Exceeded (parse r limits source) := by
  obtain ⟨enough, h⟩ := h
  let larger : Limits := ⟨max limits.maxDepth enough.maxDepth, max limits.maxNodes enough.maxNodes⟩
  have hlarger := h larger ⟨Nat.le_max_right _ _, Nat.le_max_right _ _⟩
  have hle : limits ≤ larger := ⟨Nat.le_max_left _ _, Nat.le_max_left _ _⟩
  rcases parse_eq_or_short hle with hsame | ⟨hover, -⟩
  · exact .inl (hsame.trans hlarger)
  · exact .inr hover

/-- What is accepted within limits is accepted within larger ones. -/
theorem parse_mono (h : parse r limits source = .ok e) (hle : limits ≤ limits') :
    parse r limits' source = .ok e := by
  rcases parse_eq_or_short hle with hsame | ⟨hover, -⟩
  · exact hsame.symm.trans h
  · exact absurd (h ▸ hover) not_exceeded_ok

/-- What is a tree without limits is refused just if the tree or its source goes beyond them. -/
theorem ParsesTo.exceeded_iff (h : ParsesTo r source (.ok e)) :
    limits.Exceeded (parse r limits source) ↔
      limits.maxNodes < e.nodeCount ∨ limits.maxDepth < e.depth ∨
        limits.maxDepth < nesting source := by
  have hsame := h.parse_eq_or_exceeded limits
  obtain ⟨enough, h⟩ := h
  have hok := h enough ⟨Nat.le_refl _, Nat.le_refl _⟩
  obtain ⟨tokens, htokens, -⟩ := bind_eq_ok.mp hok
  have hderived := ((parse_eq_ok_iff htokens).mp hok).1
  have haccepted : parse r limits source = .ok e ↔ e.nodeCount ≤ limits.maxNodes ∧
      e.depth ≤ limits.maxDepth ∧ nesting source ≤ limits.maxDepth :=
    (parse_eq_ok_iff htokens).trans (and_iff_right hderived)
  have hrefused : limits.Exceeded (parse r limits source) ↔ ¬ parse r limits source = .ok e :=
    ⟨fun hover hok => not_exceeded_ok (hok ▸ hover), hsame.resolve_left⟩
  rw [hrefused, haccepted]
  omega

/-- Limits only refuse, and bound what is accepted. A tree that is accepted within limits has no
more nodes and depth than they allow, and is accepted within larger limits too. A tree that is
accepted without limits is the same within them, or is refused for them, and that just if its nodes,
its depth or the nesting of its source are beyond them. What is refused without limits is refused
within them. -/
theorem parse_within_limits (r : Resolver) (source : String) (limits : Limits) :
    (∃! result, ParsesTo r source result) ∧
      (∀ e, parse r limits source = .ok e →
        e.nodeCount ≤ limits.maxNodes ∧ e.depth ≤ limits.maxDepth ∧
          ∀ larger, limits ≤ larger → parse r larger source = .ok e) ∧
      (∀ e, ParsesTo r source (.ok e) →
        (parse r limits source = .ok e ∨ limits.Exceeded (parse r limits source)) ∧
          (limits.Exceeded (parse r limits source) ↔
            limits.maxNodes < e.nodeCount ∨ limits.maxDepth < e.depth ∨
              limits.maxDepth < nesting source)) ∧
      ∀ err, ParsesTo r source (.error err) →
        parse r limits source = .error err ∨ limits.Exceeded (parse r limits source) := by
  obtain ⟨result, hresult⟩ := exists_parsesTo r source
  refine ⟨⟨result, hresult, fun _ h => h.unique hresult⟩, fun e h => ?_, fun e h => ?_,
    fun err h => h.parse_eq_or_exceeded limits⟩
  · obtain ⟨tokens, htokens, -⟩ := bind_eq_ok.mp h
    obtain ⟨-, hcount, hdepth, -⟩ := (parse_eq_ok_iff htokens).mp h
    exact ⟨hcount, hdepth, fun larger hle => parse_mono h hle⟩
  · exact ⟨h.parse_eq_or_exceeded limits, h.exceeded_iff⟩

/-- Parentheses nest without making the tree any deeper: within limits that the tree keeps to, its
source may still be refused. -/
theorem parse_parens_within_limits :
    Expr.parse ⟨fun _ => none, fun _ => false, fun _ _ => none, fun _ => none⟩ ⟨3, 1⟩ "((1))" =
        .ok (.literal (.number .one)) ∧
      Limits.Exceeded ⟨2, 1⟩ (Expr.parse ⟨fun _ => none, fun _ => false, fun _ _ => none,
        fun _ => none⟩ ⟨2, 1⟩ "((1))") := by
  have hparse : Expr.parse ⟨fun _ => none, fun _ => false, fun _ _ => none, fun _ => none⟩ ⟨3, 1⟩
      "((1))" = .ok (.literal (.number .one)) := by cbv
  have hnesting : nesting "((1))" = 3 := by cbv
  obtain ⟨-, haccepted, -⟩ := parse_within_limits ⟨fun _ => none, fun _ => false, fun _ _ => none,
    fun _ => none⟩ "((1))" ⟨3, 1⟩
  obtain ⟨-, -, hlarger⟩ := haccepted _ hparse
  obtain ⟨-, -, hrefused, -⟩ := parse_within_limits ⟨fun _ => none, fun _ => false,
    fun _ _ => none, fun _ => none⟩ "((1))" ⟨2, 1⟩
  obtain ⟨-, hexceeded⟩ := hrefused _ ⟨⟨3, 1⟩, hlarger⟩
  exact ⟨hparse, hexceeded.mpr (.inr (.inr (by rw [hnesting]; decide)))⟩

end Expr

end ComputedFields
