import ComputedFields.Formula.Expr
import ComputedFields.Formula.Lexer
import ComputedFields.Text.LetterCase

/-! From tokens to trees. Comparison binds loosest, then `&`, then `+` and `-`, then `*` and `/`,
then signs; operators of one level group to the left. Field names are resolved as they are read.
Each reader gives back what follows what it read, which is shorter than what it was given; that
is why reading ends. -/

namespace ComputedFields

/-- The bounds on a formula. -/
structure Limits where
  /-- The greatest nesting, of the tree and of the source. -/
  maxDepth : Nat := 256
  /-- The greatest number of nodes. -/
  maxNodes : Nat := 10000
deriving DecidableEq, Repr

/-- The operator of a level that a token stands for. -/
def Level.operator? : Level → TokenKind → Option BinaryOperator
  | .comparison, .equal => some .equal
  | .comparison, .notEqual => some .notEqual
  | .comparison, .lessThan => some .lessThan
  | .comparison, .lessEqual => some .lessEqual
  | .comparison, .greaterThan => some .greaterThan
  | .comparison, .greaterEqual => some .greaterEqual
  | .concatenation, .ampersand => some .concat
  | .addition, .plus => some .add
  | .addition, .minus => some .subtract
  | .multiplication, .star => some .multiply
  | .multiplication, .slash => some .divide
  | _, _ => none

/-- The next tighter level, up to the operators that only signs and operands bind tighter than. -/
def Level.tighter? : Level → Option Level
  | .comparison => some .concatenation
  | .concatenation => some .addition
  | .addition => some .multiplication
  | .multiplication => none

theorem Level.rank_tighter {level next : Level} (h : level.tighter? = some next) :
    next.rank = level.rank + 1 := by
  cases level <;> simp [tighter?] at h <;> subst h <;> rfl

theorem Level.rank_le (level : Level) : level.rank ≤ 3 := by cases level <;> decide

/-- The tree of a call. The name is in upper case, and `IF` with two or three arguments is a
choice. -/
def Expr.ofCall (name : String) (args : List Expr) : Expr :=
  match Text.toUpper name == "IF", args with
  | true, [condition, yes] => .conditional condition yes none
  | true, [condition, yes, no] => .conditional condition yes (some no)
  | _, _ => .call (Text.toUpper name) args

namespace Parser

/-- What a reader took from fewer than `bound` tokens: a result, the number of nodes made so far
and the tokens that are left. -/
structure Taken (α : Type) (bound : Nat) where
  result : α
  nodes : Nat
  rest : List Token
  rest_lt : rest.length < bound

/-- What stays the same while a formula is read. -/
structure Context where
  resolver : Resolver
  limits : Limits

/-- The error at the first of the tokens. -/
def unexpected (expected : Expectation) : List Token → FormulaError
  | token :: _ => .parse token.offset expected token.kind
  | [] => .parse 0 expected .eof

/-- Counts one more node. -/
def countNode (ctx : Context) (nodes : Nat) : Except FormulaError Nat :=
  if ctx.limits.maxNodes < nodes + 1 then
    .error (.limitExceeded .nodes ctx.limits.maxNodes (nodes + 1))
  else .ok (nodes + 1)

/-- Goes one level deeper. -/
def enter (ctx : Context) (nesting : Nat) : Except FormulaError Nat :=
  if ctx.limits.maxDepth < nesting + 1 then
    .error (.limitExceeded .depth ctx.limits.maxDepth (nesting + 1))
  else .ok (nesting + 1)

/-- Reads what follows a field name: nothing, or a point and a field of the linked table. -/
def fieldReference (ctx : Context) (nodes : Nat) (name : String) (offset : Nat)
    (tokens : List Token) : Except FormulaError (Taken Expr (tokens.length + 1)) :=
  match ctx.resolver.resolve name with
  | none => .error (.unknownField name offset)
  | some f =>
    match tokens with
    | ⟨.dot, _, _⟩ :: ⟨.field remoteName, _, remoteOffset⟩ :: rest =>
      if ctx.resolver.isLink f then
        match ctx.resolver.resolveLinked f remoteName with
        | none => .error (.unknownField remoteName remoteOffset)
        | some remote => do
          let nodes ← countNode ctx nodes
          return ⟨.lookup f remote, nodes, rest, by simp only [List.length_cons]; omega⟩
      else .error (.notALinkField name offset)
    | ⟨.dot, _, _⟩ :: rest => .error (unexpected .remoteField rest)
    | tokens => do
      let nodes ← countNode ctx nodes
      return ⟨.field f, nodes, tokens, Nat.lt_succ_self _⟩

mutual

/-- Reads a whole expression, one level deeper than its surroundings. -/
def expression (ctx : Context) (nesting nodes : Nat) (tokens : List Token) :
    Except FormulaError (Taken Expr tokens.length) := do
  let nesting ← enter ctx nesting
  chain ctx nesting nodes .comparison tokens
termination_by (tokens.length, 12)

/-- Reads operands of a level and the operators between them. -/
def chain (ctx : Context) (nesting nodes : Nat) (level : Level) (tokens : List Token) :
    Except FormulaError (Taken Expr tokens.length) := do
  let first ← operand ctx nesting nodes level tokens
  let whole ← chainRest ctx nesting first.nodes level first.result first.rest
  return ⟨whole.result, whole.nodes, whole.rest, by
    have := first.rest_lt; have := whole.rest_lt; omega⟩
termination_by (tokens.length, 11 - 2 * level.rank)
decreasing_by
  · have := level.rank_le
    exact Prod.Lex.right _ (by omega)
  · exact Prod.Lex.left _ _ first.rest_lt

/-- Reads one operand of a level. -/
def operand (ctx : Context) (nesting nodes : Nat) (level : Level) (tokens : List Token) :
    Except FormulaError (Taken Expr tokens.length) :=
  match _h : level.tighter? with
  | some next => chain ctx nesting nodes next tokens
  | none => unary ctx nesting nodes tokens
termination_by (tokens.length, 10 - 2 * level.rank)
decreasing_by
  · have := Level.rank_tighter _h
    have := next.rank_le
    exact Prod.Lex.right _ (by omega)
  · have := level.rank_le
    exact Prod.Lex.right _ (by omega)

/-- Reads the operators of a level that follow `left`, each with its right operand. -/
def chainRest (ctx : Context) (nesting nodes : Nat) (level : Level) (left : Expr)
    (tokens : List Token) : Except FormulaError (Taken Expr (tokens.length + 1)) :=
  match tokens with
  | [] => .ok ⟨left, nodes, [], Nat.lt_succ_self _⟩
  | token :: rest =>
    match level.operator? token.kind with
    | none => .ok ⟨left, nodes, token :: rest, Nat.lt_succ_self _⟩
    | some op => do
      let right ← operand ctx nesting nodes level rest
      let nodes ← countNode ctx right.nodes
      let whole ← chainRest ctx nesting nodes level (.binary op left right.result) right.rest
      return ⟨whole.result, whole.nodes, whole.rest, by
        have := right.rest_lt; have := whole.rest_lt; simp only [List.length_cons]; omega⟩
termination_by (tokens.length, 0)
decreasing_by
  · exact Prod.Lex.left _ _ (Nat.lt_succ_self _)
  · exact Prod.Lex.left _ _ (Nat.lt_succ_of_lt right.rest_lt)

/-- Reads signs and the operand that they stand before. -/
def unary (ctx : Context) (nesting nodes : Nat) (tokens : List Token) :
    Except FormulaError (Taken Expr tokens.length) :=
  match tokens with
  | ⟨.minus, _, _⟩ :: rest => do
    let nesting ← enter ctx nesting
    let inner ← unary ctx nesting nodes rest
    let nodes ← countNode ctx inner.nodes
    return ⟨.negate inner.result, nodes, inner.rest, Nat.lt_succ_of_lt inner.rest_lt⟩
  | tokens => primary ctx nesting nodes tokens
termination_by (tokens.length, 2)
decreasing_by
  · exact Prod.Lex.left _ _ (Nat.lt_succ_self _)
  · exact Prod.Lex.right _ (by decide)

/-- Reads an operand that is whole by itself: a literal, a field, a call or an expression in
parentheses. -/
def primary (ctx : Context) (nesting nodes : Nat) (tokens : List Token) :
    Except FormulaError (Taken Expr tokens.length) :=
  match tokens with
  | ⟨.number n, _, _⟩ :: rest => do
    let nodes ← countNode ctx nodes
    return ⟨.literal (.number n), nodes, rest, Nat.lt_succ_self _⟩
  | ⟨.text s, _, _⟩ :: rest => do
    let nodes ← countNode ctx nodes
    return ⟨.literal (.text s), nodes, rest, Nat.lt_succ_self _⟩
  | ⟨.boolean b, _, _⟩ :: rest => do
    let nodes ← countNode ctx nodes
    return ⟨.literal (.boolean b), nodes, rest, Nat.lt_succ_self _⟩
  | ⟨.leftParen, _, _⟩ :: rest => do
    let inner ← expression ctx nesting nodes rest
    match h : inner.rest with
    | ⟨.rightParen, _, _⟩ :: after =>
      return ⟨inner.result, inner.nodes, after, by
        have := inner.rest_lt; rw [h] at this; simp only [List.length_cons] at *; omega⟩
    | others => .error (unexpected .closeParen others)
  | ⟨.field name, _, offset⟩ :: rest => fieldReference ctx nodes name offset rest
  | ⟨.identifier name, _, _⟩ :: ⟨.leftParen, _, _⟩ :: ⟨.rightParen, _, _⟩ :: rest => do
    let nodes ← countNode ctx nodes
    return ⟨.ofCall name [], nodes, rest, by simp only [List.length_cons]; omega⟩
  | ⟨.identifier name, _, _⟩ :: ⟨.leftParen, _, _⟩ :: rest => do
    let args ← arguments ctx nesting nodes rest
    match h : args.rest with
    | ⟨.rightParen, _, _⟩ :: after =>
      let nodes ← countNode ctx args.nodes
      return ⟨.ofCall name args.result, nodes, after, by
        have := args.rest_lt; rw [h] at this; simp only [List.length_cons] at *; omega⟩
    | others => .error (unexpected .argumentEnd others)
  | ⟨.identifier _, _, _⟩ :: rest => .error (unexpected .openParen rest)
  | others => .error (unexpected .expression others)
termination_by (tokens.length, 1)
decreasing_by
  · exact Prod.Lex.left _ _ (Nat.lt_succ_self _)
  · exact Prod.Lex.left _ _ (by simp only [List.length_cons]; omega)

/-- Reads expressions with commas between. -/
def arguments (ctx : Context) (nesting nodes : Nat) (tokens : List Token) :
    Except FormulaError (Taken (List Expr) tokens.length) := do
  let first ← expression ctx nesting nodes tokens
  match h : first.rest with
  | ⟨.comma, _, _⟩ :: after => do
    let more ← arguments ctx nesting first.nodes after
    return ⟨first.result :: more.result, more.nodes, more.rest, by
      have taken := first.rest_lt; have := more.rest_lt; rw [h] at taken
      simp only [List.length_cons] at *; omega⟩
  | others =>
    return ⟨[first.result], first.nodes, others, by have := first.rest_lt; rwa [h] at this⟩
termination_by (tokens.length, 13)
decreasing_by
  · exact Prod.Lex.right _ (by decide)
  · refine Prod.Lex.left _ _ ?_
    have := first.rest_lt
    rw [h] at this
    simp only [List.length_cons] at this
    omega

end

/-- Reads tokens to their end as one formula. -/
def wholeFormula (ctx : Context) (tokens : List Token) : Except FormulaError Expr := do
  let read ← expression ctx 0 0 tokens
  match read.rest with
  | ⟨.eof, _, _⟩ :: _ =>
    if ctx.limits.maxDepth < read.result.depth then
      .error (.limitExceeded .depth ctx.limits.maxDepth read.result.depth)
    else .ok read.result
  | others => .error (unexpected .endOfInput others)

end Parser

/-- Reads a formula. -/
def Expr.parse (resolver : Resolver) (limits : Limits) (source : String) :
    Except FormulaError Expr := do
  let tokens ← tokenize source
  Parser.wholeFormula ⟨resolver, limits⟩ tokens

end ComputedFields
