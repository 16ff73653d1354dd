import ComputedFields.Proofs.Formula.Grammar

/-!
# What may come next in a formula

The grammar of formulas apart from names, that is under some resolver; and for the tokens of the
start of a formula, which ones may come next. That depends on what is due, and on the groups that
are open: parentheses, and the arguments of calls.
-/

namespace ComputedFields

open Token (operatorKind)
open ComputedFields.Parser (literalOf)

variable {r : Resolver} {k : Nat} {kind : TokenKind} {kinds more : List TokenKind} {e : Expr}

/-! ## Formulas apart from names -/

/-- The kinds of tokens stand for a tree that binds with some strength, if names are resolved as
they need. -/
def Shape (k : Nat) (kinds : List TokenKind) : Prop := ∃ r e, Derives r k kinds e

/-- The kinds of tokens are those of a whole formula, up to the mark of the end. -/
def Formula.Shaped (kinds : List TokenKind) : Prop := ∃ body, kinds = body ++ [.eof] ∧ Shape 0 body

/-- The kinds of tokens can be extended to those of a whole formula. -/
def Formula.Viable (kinds : List TokenKind) : Prop := ∃ more, Formula.Shaped (kinds ++ more)

/-- Finds a field under every name, which is a link field too. -/
def Resolver.lenient : Resolver where
  resolve _ := some ⟨0⟩
  isLink _ := true
  resolveLinked _ _ := some ⟨0⟩
  fieldName _ := none

theorem exists_lenient_arguments {parts : List (List TokenKind)}
    (h : ∀ part ∈ parts, ∃ e, Derives .lenient 0 part e) :
    ∃ args : List (List TokenKind × Expr), args.map Prod.fst = parts ∧
      ∀ arg ∈ args, Derives .lenient 0 arg.1 arg.2 := by
  induction parts with
  | nil => exact ⟨[], rfl, by simp⟩
  | cons part parts ih =>
    obtain ⟨⟨e, he⟩, hparts⟩ := List.forall_mem_cons.mp h
    obtain ⟨args, rfl, hargs⟩ := ih hparts
    exact ⟨(part, e) :: args, rfl, List.forall_mem_cons.mpr ⟨he, hargs⟩⟩

/-- A call of what is derived, whatever its tree is. -/
theorem exists_lenient_call (name : String) {parts : List (List TokenKind)}
    (h : ∀ part ∈ parts, ∃ e, Derives .lenient 0 part e) :
    ∃ e, Derives .lenient 5 (.identifier name :: .leftParen ::
      ([TokenKind.comma].intercalate parts ++ [.rightParen])) e := by
  obtain ⟨args, rfl, hargs⟩ := exists_lenient_arguments h
  exact ⟨_, .call hargs (callTree_ofCall name _)⟩

/-- The resolver that finds every name allows for all that any resolver does. -/
theorem Derives.lenient (h : Derives r k kinds e) : ∃ e, Derives .lenient k kinds e := by
  induction h with
  | looser _ ih =>
    obtain ⟨e, he⟩ := ih
    exact ⟨e, he.looser⟩
  | binary _ _ iha ihb =>
    obtain ⟨a, ha⟩ := iha
    obtain ⟨b, hb⟩ := ihb
    exact ⟨_, ha.binary hb⟩
  | negate _ ih =>
    obtain ⟨e, he⟩ := ih
    exact ⟨_, he.negate⟩
  | literal h => exact ⟨_, .literal h⟩
  | field => exact ⟨_, .field rfl⟩
  | lookup => exact ⟨_, .lookup rfl rfl rfl⟩
  | call _ _ ih => exact exists_lenient_call _ (List.forall_mem_map.mpr ih)
  | parens _ ih =>
    obtain ⟨e, he⟩ := ih
    exact ⟨_, he.parens⟩

namespace Shape

variable {left right : List TokenKind} {op : BinaryOperator} {name name' : String} {value : Value}

theorem lenient (h : Shape k kinds) : ∃ e, Derives .lenient k kinds e := by
  obtain ⟨r, e, he⟩ := h
  exact he.lenient

theorem mono {j : Nat} (h : Shape k kinds) (hjk : j ≤ k) : Shape j kinds := by
  obtain ⟨r, e, he⟩ := h
  exact ⟨r, e, he.mono hjk⟩

theorem binary (hleft : Shape op.level.rank left) (hright : Shape (op.level.rank + 1) right) :
    Shape op.level.rank (left ++ operatorKind op :: right) := by
  obtain ⟨a, ha⟩ := hleft.lenient
  obtain ⟨b, hb⟩ := hright.lenient
  exact ⟨_, _, ha.binary hb⟩

theorem negate (h : Shape 4 kinds) : Shape 4 (.minus :: kinds) := by
  obtain ⟨r, e, he⟩ := h
  exact ⟨r, _, he.negate⟩

theorem literal (h : literalOf kind = some value) : Shape 5 [kind] := ⟨.lenient, _, .literal h⟩

theorem field : Shape 5 [.field name] := ⟨.lenient, _, .field rfl⟩

theorem lookup : Shape 5 [.field name, .dot, .field name'] := ⟨.lenient, _, .lookup rfl rfl rfl⟩

theorem parens (h : Shape 0 kinds) : Shape 5 (.leftParen :: (kinds ++ [.rightParen])) := by
  obtain ⟨r, e, he⟩ := h
  exact ⟨r, e, he.parens⟩

theorem noArguments : Shape 5 [.identifier name, .leftParen, .rightParen] := by
  have hnone : ∀ part ∈ ([] : List (List TokenKind)), ∃ e, Derives .lenient 0 part e := by simp
  exact ⟨_, exists_lenient_call name hnone⟩

end Shape

/-- The kinds of tokens are those of arguments, one or more. -/
def Arguments (kinds : List TokenKind) : Prop :=
  ∃ parts, parts ≠ [] ∧ kinds = [TokenKind.comma].intercalate parts ∧ ∀ part ∈ parts, Shape 0 part

namespace Arguments

theorem single (h : Shape 0 kinds) : Arguments kinds :=
  ⟨[kinds], by simp, by simp, by simpa using h⟩

theorem cons (h : Shape 0 kinds) (hmore : Arguments more) :
    Arguments (kinds ++ .comma :: more) := by
  obtain ⟨parts, hne, rfl, hparts⟩ := hmore
  refine ⟨kinds :: parts, by simp, ?_, List.forall_mem_cons.mpr ⟨h, hparts⟩⟩
  rw [List.intercalate_cons_of_ne_nil hne]
  simp

theorem call (name : String) (h : Arguments kinds) :
    Shape 5 (.identifier name :: .leftParen :: (kinds ++ [.rightParen])) := by
  obtain ⟨parts, -, rfl, hparts⟩ := h
  exact ⟨_, exists_lenient_call name fun part hpart => (hparts part hpart).lenient⟩

end Arguments

/-! ## What is due -/

/-- What a formula goes on with. -/
inductive Due where
  /-- An expression. -/
  | operand
  /-- The first argument of a call, or its end. -/
  | argument
  /-- The parenthesis after the name of a function. -/
  | opening
  /-- The field behind a link. -/
  | remote
  /-- An operator or the end of the group; a dot too, after a field. -/
  | more (dot : Bool)
  | nothing
deriving DecidableEq, Repr

/-- What parentheses are around. -/
inductive Enclosure where
  | expression
  | arguments
deriving DecidableEq, Repr

/-- What is due in a formula, and the groups that are open, the innermost first. -/
structure Progress where
  due : Due
  groups : List Enclosure
deriving DecidableEq, Repr

namespace Progress

/-- After the first token of an expression. -/
def begin? (groups : List Enclosure) : TokenKind → Option Progress
  | .number _ | .text _ | .boolean _ => some ⟨.more false, groups⟩
  | .field _ => some ⟨.more true, groups⟩
  | .identifier _ => some ⟨.opening, groups⟩
  | .leftParen => some ⟨.operand, .expression :: groups⟩
  | .minus => some ⟨.operand, groups⟩
  | _ => none

/-- After a token that comes after an expression. -/
def follow? (groups : List Enclosure) : TokenKind → Option Progress
  | .plus | .minus | .star | .slash | .ampersand | .equal | .notEqual | .lessThan | .lessEqual
  | .greaterThan | .greaterEqual => some ⟨.operand, groups⟩
  | .comma => if groups.head? = some .arguments then some ⟨.operand, groups⟩ else none
  | .rightParen =>
    match groups with
    | _ :: outer => some ⟨.more false, outer⟩
    | [] => none
  | .eof => if groups = [] then some ⟨.nothing, []⟩ else none
  | _ => none

/-- After one more token, unless it is impossible. -/
def next? : Progress → TokenKind → Option Progress
  | ⟨.operand, groups⟩, kind => begin? groups kind
  | ⟨.argument, _ :: groups⟩, .rightParen => some ⟨.more false, groups⟩
  | ⟨.argument, groups⟩, kind => begin? groups kind
  | ⟨.opening, groups⟩, .leftParen => some ⟨.argument, .arguments :: groups⟩
  | ⟨.remote, groups⟩, .field _ => some ⟨.more false, groups⟩
  | ⟨.more true, groups⟩, .dot => some ⟨.remote, groups⟩
  | ⟨.more _, groups⟩, kind => follow? groups kind
  | _, _ => none

/-- After some more tokens, unless one of them is impossible. -/
def run : Progress → List TokenKind → Option Progress
  | p, [] => some p
  | p, kind :: kinds => (p.next? kind).bind (run · kinds)

variable {p p' : Progress} {groups : List Enclosure} {dot : Bool} {op : BinaryOperator}

/-! ## Steps -/

theorem next?_operator (dot : Bool) (groups : List Enclosure) (op : BinaryOperator) :
    next? ⟨.more dot, groups⟩ (operatorKind op) = some ⟨.operand, groups⟩ := by
  cases dot <;> cases op <;> rfl

theorem next?_remote (hkind : ∀ name, kind ≠ .field name) :
    next? ⟨.remote, groups⟩ kind = none := by
  cases kind with
  | field name => exact absurd rfl (hkind name)
  | _ => rfl

theorem next?_opening (hkind : kind ≠ .leftParen) : next? ⟨.opening, groups⟩ kind = none := by
  cases kind <;> first | rfl | exact absurd rfl hkind

theorem next?_more_of_ne_dot (hkind : kind ≠ .dot) :
    next? ⟨.more dot, groups⟩ kind = follow? groups kind := by
  cases dot with
  | false => rfl
  | true => cases kind <;> first | rfl | exact absurd rfl hkind

/-- A token that is no operator goes on after an expression only if it ends what is open. -/
theorem follow?_eq_none (hop : ∀ level : Level, level.operator? kind = none)
    (hcomma : kind = .comma → groups.head? ≠ some .arguments)
    (hclose : kind = .rightParen → groups = []) (heof : kind = .eof → groups ≠ []) :
    follow? groups kind = none := by
  have hkind : ∀ op, kind ≠ operatorKind op := by
    rintro op rfl
    have hsome := Parser.operator?_operatorKind op
    rw [hop op.level] at hsome
    cases hsome
  cases kind with
  | plus => exact absurd rfl (hkind .add)
  | minus => exact absurd rfl (hkind .subtract)
  | star => exact absurd rfl (hkind .multiply)
  | slash => exact absurd rfl (hkind .divide)
  | ampersand => exact absurd rfl (hkind .concat)
  | equal => exact absurd rfl (hkind .equal)
  | notEqual => exact absurd rfl (hkind .notEqual)
  | lessThan => exact absurd rfl (hkind .lessThan)
  | lessEqual => exact absurd rfl (hkind .lessEqual)
  | greaterThan => exact absurd rfl (hkind .greaterThan)
  | greaterEqual => exact absurd rfl (hkind .greaterEqual)
  | comma => exact if_neg (hcomma rfl)
  | rightParen =>
    rw [hclose rfl]
    rfl
  | eof => exact if_neg (heof rfl)
  | _ => rfl

/-! ## Runs -/

theorem run_append (p : Progress) (kinds more : List TokenKind) :
    p.run (kinds ++ more) = (p.run kinds).bind (·.run more) := by
  induction kinds generalizing p with
  | nil => rfl
  | cons kind kinds ih =>
    rw [List.cons_append, run, run, Option.bind_assoc]
    exact Option.bind_congr fun p' _ => ih p'

theorem run_append_of_some (h : p.run kinds = some p') (more : List TokenKind) :
    p.run (kinds ++ more) = p'.run more := by
  rw [run_append, h]
  rfl

theorem run_append_of_none (h : p.run kinds = none) (more : List TokenKind) :
    p.run (kinds ++ more) = none := by
  rw [run_append, h]
  rfl

theorem run_cons_of_some (h : p.next? kind = some p') (kinds : List TokenKind) :
    p.run (kind :: kinds) = p'.run kinds := by
  rw [run, h]
  rfl

theorem run_singleton (p : Progress) (kind : TokenKind) : p.run [kind] = p.next? kind := by
  rw [run]
  exact Option.bind_fun_some _

theorem run_leftParen (kinds : List TokenKind) :
    run ⟨.operand, groups⟩ (.leftParen :: kinds) = run ⟨.operand, .expression :: groups⟩ kinds :=
  rfl

/-- The first argument of a call starts as any expression does. -/
theorem run_argument (hkind : kind ≠ .rightParen) (kinds : List TokenKind) :
    run ⟨.argument, groups⟩ (kind :: kinds) = run ⟨.operand, groups⟩ (kind :: kinds) := by
  have hnext : next? ⟨.argument, groups⟩ kind = begin? groups kind := by
    cases groups <;> cases kind <;> first | rfl | exact absurd rfl hkind
  rw [run, run, hnext]
  rfl

theorem run_argument_of_some {groups' : List Enclosure}
    (h : run ⟨.operand, groups⟩ kinds = some ⟨.more dot, groups'⟩) (more : List TokenKind) :
    run ⟨.argument, groups⟩ (kinds ++ more) = run ⟨.operand, groups⟩ (kinds ++ more) := by
  cases kinds with
  | nil => cases h
  | cons kind kinds => exact run_argument (by rintro rfl; cases h) _

/-- An operator after an expression makes another expression due. -/
theorem run_operator (h : p.run kinds = some ⟨.more dot, groups⟩) (op : BinaryOperator)
    (more : List TokenKind) :
    p.run (kinds ++ operatorKind op :: more) = run ⟨.operand, groups⟩ more := by
  rw [run_append_of_some h, run_cons_of_some (next?_operator dot groups op)]

theorem run_comma (h : p.run kinds = some ⟨.more dot, .arguments :: groups⟩)
    (more : List TokenKind) :
    p.run (kinds ++ .comma :: more) = run ⟨.operand, .arguments :: groups⟩ more := by
  rw [run_append_of_some h, run, next?_more_of_ne_dot (by simp)]
  rfl

theorem run_rightParen {group : Enclosure} (h : p.run kinds = some ⟨.more dot, group :: groups⟩)
    (more : List TokenKind) :
    p.run (kinds ++ .rightParen :: more) = run ⟨.more false, groups⟩ more := by
  rw [run_append_of_some h, run, next?_more_of_ne_dot (by simp)]
  rfl

/-- Nothing comes after the end. -/
theorem run_eof (h : p.run (kinds ++ .eof :: more) = some p') : p' = ⟨.nothing, []⟩ := by
  rw [run_append, Option.bind_eq_some_iff] at h
  obtain ⟨⟨due, groups⟩, -, h⟩ := h
  rw [run, Option.bind_eq_some_iff] at h
  obtain ⟨last, hlast, hmore⟩ := h
  have hend : last = ⟨.nothing, []⟩ := by
    unfold next? begin? follow? at hlast
    grind
  subst hend
  cases more with
  | nil =>
    cases hmore
    rfl
  | cons kind more => cases hmore

end Progress

/-! ## Expressions as runs -/

open Progress (run)

/-- Where an expression is due, the kinds of tokens are one: what comes after it is due then. -/
def Completes (kinds : List TokenKind) : Prop :=
  ∃ dot, ∀ groups, run ⟨.operand, groups⟩ kinds = some ⟨.more dot, groups⟩

theorem exists_run_arguments {parts : List (List TokenKind)} (hne : parts ≠ [])
    (h : ∀ part ∈ parts, Completes part) : ∃ dot, ∀ groups,
      run ⟨.operand, .arguments :: groups⟩ ([TokenKind.comma].intercalate parts) =
        some ⟨.more dot, .arguments :: groups⟩ := by
  induction parts with
  | nil => exact absurd rfl hne
  | cons part parts ih =>
    obtain ⟨⟨dot, hpart⟩, hparts⟩ := List.forall_mem_cons.mp h
    cases parts with
    | nil => exact ⟨dot, fun groups => by simpa using hpart (.arguments :: groups)⟩
    | cons next parts =>
      obtain ⟨dot', hmore⟩ := ih (by simp) hparts
      refine ⟨dot', fun groups => ?_⟩
      rw [List.intercalate_cons_cons, List.append_assoc, List.singleton_append,
        Progress.run_comma (hpart _)]
      exact hmore groups

theorem Derives.completes (h : Derives r k kinds e) : Completes kinds := by
  induction h with
  | looser _ ih => exact ih
  | binary _ _ iha ihb =>
    obtain ⟨dot, hleft⟩ := iha
    obtain ⟨dot', hright⟩ := ihb
    refine ⟨dot', fun groups => ?_⟩
    rw [Progress.run_operator (hleft groups)]
    exact hright groups
  | negate _ ih => exact ih
  | @literal kind _ h =>
    refine ⟨false, fun groups => ?_⟩
    cases kind <;> first | rfl | cases h
  | field => exact ⟨true, fun groups => rfl⟩
  | lookup => exact ⟨false, fun groups => rfl⟩
  | @call name args _ _ _ ih =>
    refine ⟨false, fun groups => ?_⟩
    cases args with
    | nil => rfl
    | cons arg args =>
      have hparts : ∀ part ∈ (arg :: args).map Prod.fst, Completes part :=
        List.forall_mem_map.mpr ih
      obtain ⟨dot, hinside⟩ := exists_run_arguments (by simp) hparts
      exact (Progress.run_argument_of_some (hinside groups) _).trans
        (Progress.run_rightParen (hinside groups) [])
  | parens _ ih =>
    obtain ⟨dot, hinside⟩ := ih
    exact ⟨false, fun groups => Progress.run_rightParen (hinside (.expression :: groups)) []⟩

theorem Shape.completes (h : Shape k kinds) : Completes kinds := by
  obtain ⟨r, e, he⟩ := h
  exact he.completes

theorem Arguments.completes (h : Arguments kinds) : ∃ dot, ∀ groups,
    run ⟨.operand, .arguments :: groups⟩ kinds = some ⟨.more dot, .arguments :: groups⟩ := by
  obtain ⟨parts, hne, rfl, hparts⟩ := h
  exact exists_run_arguments hne fun part hpart => (hparts part hpart).completes

/-- The arguments of a call are read as they would be after a comma. -/
theorem Arguments.run_call {groups : List Enclosure} (h : Arguments kinds) (name : String)
    (more : List TokenKind) :
    run ⟨.operand, groups⟩ (.identifier name :: .leftParen :: (kinds ++ more)) =
      run ⟨.operand, .arguments :: groups⟩ (kinds ++ more) := by
  obtain ⟨dot, hrun⟩ := h.completes
  exact Progress.run_argument_of_some (hrun groups) more

end ComputedFields
