import ComputedFields.Proofs.Formula.Nesting
import ComputedFields.Proofs.Formula.Parsing

/-!
# The grammar of formulas

Which trees the tokens of a formula stand for, apart from how they are read. A tree binds with a
strength: 0 to 3 are the ranks of comparisons, joined texts, sums and products, 4 is for signs and
5 for what is whole by itself. The parser reads all that the grammar derives, within limits that the
tree and its tokens keep to, and tokens keep to limits as large as the source is long; so they stand
for one tree at most.
-/

namespace ComputedFields

open Token (operatorKind)

/-- The tree of a call. The name is in upper case, and `IF` with two or three arguments is a
choice. -/
inductive CallTree (name : String) : List Expr → Expr → Prop where
  | ifThen {condition yes : Expr} (h : Text.toUpper name = "IF") :
    CallTree name [condition, yes] (.conditional condition yes none)
  | ifThenElse {condition yes no : Expr} (h : Text.toUpper name = "IF") :
    CallTree name [condition, yes, no] (.conditional condition yes (some no))
  | call {args : List Expr} (h : ¬ Expr.ReadsAsChoice (Text.toUpper name) args) :
    CallTree name args (.call (Text.toUpper name) args)

/-- The kinds of tokens stand for a tree that binds with some strength at least. -/
inductive Derives (r : Resolver) : Nat → List TokenKind → Expr → Prop where
  | looser {k : Nat} {kinds : List TokenKind} {e : Expr} (h : Derives r (k + 1) kinds e) :
    Derives r k kinds e
  /-- Operators of one rank group to the left. -/
  | binary {op : BinaryOperator} {left right : List TokenKind} {a b : Expr}
    (ha : Derives r op.level.rank left a) (hb : Derives r (op.level.rank + 1) right b) :
    Derives r op.level.rank (left ++ operatorKind op :: right) (.binary op a b)
  | negate {kinds : List TokenKind} {e : Expr} (h : Derives r 4 kinds e) :
    Derives r 4 (.minus :: kinds) (.negate e)
  | literal {kind : TokenKind} {value : Value} (h : Parser.literalOf kind = some value) :
    Derives r 5 [kind] (.literal value)
  | field {name : String} {f : FieldId} (h : r.resolve name = some f) :
    Derives r 5 [.field name] (.field f)
  | lookup {name name' : String} {link f : FieldId} (h : r.resolve name = some link)
    (hlink : r.isLink link = true) (hf : r.resolveLinked link name' = some f) :
    Derives r 5 [.field name, .dot, .field name'] (.lookup link f)
  | call {name : String} {args : List (List TokenKind × Expr)} {e : Expr}
    (hargs : ∀ arg ∈ args, Derives r 0 arg.1 arg.2) (he : CallTree name (args.map Prod.snd) e) :
    Derives r 5 (.identifier name :: .leftParen ::
      ([TokenKind.comma].intercalate (args.map Prod.fst) ++ [.rightParen])) e
  | parens {kinds : List TokenKind} {e : Expr} (h : Derives r 0 kinds e) :
    Derives r 5 (.leftParen :: (kinds ++ [.rightParen])) e

variable {r : Resolver} {k : Nat} {name : String} {kinds : List TokenKind} {e e' : Expr}
  {args : List Expr}

/-! ## Calls -/

theorem callTree_ofCall (name : String) (args : List Expr) :
    CallTree name args (.ofCall name args) := by
  by_cases hchoice : Expr.ReadsAsChoice (Text.toUpper name) args
  · obtain ⟨hif, hlength⟩ := hchoice
    match args, hlength with
    | [condition, yes], _ => simpa [Expr.ofCall, hif] using CallTree.ifThen hif
    | [condition, yes, no], _ => simpa [Expr.ofCall, hif] using CallTree.ifThenElse hif
  · rw [Expr.ofCall_of_not_choice hchoice]
    exact .call hchoice

/-- The parser makes the tree of a call. -/
theorem CallTree.eq_ofCall (h : CallTree name args e) : e = .ofCall name args := by
  cases h with
  | ifThen h => simp [Expr.ofCall, h]
  | ifThenElse h => simp [Expr.ofCall, h]
  | call h => exact (Expr.ofCall_of_not_choice h).symm

theorem CallTree.nodeCount_eq (h : CallTree name args e) :
    e.nodeCount = Expr.nodeCountAll args + 1 := by
  cases h with
  | ifThen => simp [Expr.nodeCount, Expr.nodeCountAll]
  | ifThenElse => simp [Expr.nodeCount, Expr.nodeCountAll, Nat.add_assoc]
  | call => rw [Expr.nodeCount]

/-! ## Tokens that are derived -/

/-- Whatever is derived starts with something, but not with the end of what is in parentheses. -/
theorem Derives.eq_cons (h : Derives r k kinds e) :
    ∃ kind more, kinds = kind :: more ∧ kind ≠ .rightParen := by
  induction h with
  | looser _ ih => exact ih
  | binary _ _ ihleft =>
    obtain ⟨kind, more, rfl, hkind⟩ := ihleft
    exact ⟨kind, _, rfl, hkind⟩
  | literal h => exact ⟨_, [], rfl, by rintro rfl; cases h⟩
  | negate | field | lookup | call | parens => exact ⟨_, _, rfl, by simp⟩

/-- The arguments of a call have no more nodes than tokens, if each has not. -/
theorem nodeCountAll_le {parts : List (List TokenKind × Expr)}
    (h : ∀ part ∈ parts, part.2.nodeCount ≤ part.1.length) :
    Expr.nodeCountAll (parts.map Prod.snd) ≤
      ([TokenKind.comma].intercalate (parts.map Prod.fst)).length := by
  induction parts with
  | nil => exact Nat.le_refl _
  | cons part parts ih =>
    obtain ⟨hpart, hparts⟩ := List.forall_mem_cons.mp h
    have hmore := ih hparts
    cases parts with
    | nil => simpa [Expr.nodeCountAll] using hpart
    | cons next parts =>
      simp only [List.map_cons, Expr.nodeCountAll, List.intercalate_cons_cons,
        List.length_append] at hmore ⊢
      omega

theorem Derives.nodeCount_le (h : Derives r k kinds e) : e.nodeCount ≤ kinds.length := by
  induction h with
  | looser _ ih => exact ih
  | binary _ _ iha ihb =>
    simp only [Expr.nodeCount, List.length_append, List.length_cons]
    omega
  | negate _ ih =>
    simp only [Expr.nodeCount, List.length_cons]
    omega
  | literal | field | lookup => simp [Expr.nodeCount]
  | call _ he ih =>
    have hall := nodeCountAll_le ih
    simp only [he.nodeCount_eq, List.length_cons, List.length_append, List.length_nil]
    omega
  | parens _ ih =>
    simp only [List.length_cons, List.length_append, List.length_nil]
    omega

theorem sublist_intercalate {part : List TokenKind × Expr} {parts : List (List TokenKind × Expr)}
    (h : part ∈ parts) : part.1.Sublist ([TokenKind.comma].intercalate (parts.map Prod.fst)) := by
  induction parts with
  | nil => cases h
  | cons first parts ih =>
    cases parts with
    | nil =>
      cases List.mem_singleton.mp h
      simp
    | cons next parts =>
      simp only [List.map_cons, List.intercalate_cons_cons] at ih ⊢
      rcases List.mem_cons.mp h with rfl | h
      · rw [List.append_assoc]
        exact List.sublist_append_left _ _
      · exact (ih h).trans (List.sublist_append_right _ _)

theorem Derives.mono {j : Nat} (h : Derives r k kinds e) (hjk : j ≤ k) : Derives r j kinds e := by
  induction hjk with
  | refl => exact h
  | step _ ih => exact ih h.looser

/-! ## How deep derived tokens are nested -/

section

variable {kind : TokenKind} {op : BinaryOperator} {left right : List TokenKind} {a b : Expr}
  {parts : List (List TokenKind × Expr)}

theorem separates_operatorKind (op : BinaryOperator) : Separates (operatorKind op) := by
  refine ⟨by cases op <;> rfl, fun p hended => ?_⟩
  cases op <;> first | rfl | exact if_pos hended

theorem nests_literal {value : Value} (h : Parser.literalOf kind = some value) :
    Nests k [kind] 0 := by
  cases kind <;> first | exact nests_operand rfl fun _ => rfl | cases h

/-- What is derived has a height of its own. -/
theorem Derives.nests (h : Derives r k kinds e) : Nests k kinds (height kinds) := by
  induction h with
  | looser _ ih => exact ih.looser
  | @binary op _ _ _ _ _ _ iha ihb =>
    have hrank := op.level.rank_le
    exact (iha.separated (by omega) (separates_operatorKind op) ihb).self
  | negate _ ih => exact ih.negate.self
  | literal h => exact (nests_literal h).self
  | field => exact nests_field.self
  | lookup => exact nests_lookup.self
  | @call name args _ _ _ ih =>
    cases args with
    | nil => exact nests_noArguments.self
    | cons arg args =>
      obtain ⟨d, hargs, -⟩ := nests_arguments ((arg :: args).map Prod.fst) (by simp)
        (List.forall_mem_map.mpr ih)
      exact hargs.call.self
  | parens _ ih => exact ih.parens.self

theorem height_binary (ha : Derives r op.level.rank left a)
    (hb : Derives r (op.level.rank + 1) right b) :
    height (left ++ operatorKind op :: right) = max (height left) (height right) := by
  have hrank := op.level.rank_le
  exact (ha.nests.separated (by omega) (separates_operatorKind op) hb.nests).height_eq

/-- A call is one deeper than its arguments, if there are any. -/
theorem height_call_le {n : Nat} (hargs : ∀ part ∈ parts, Derives r 0 part.1 part.2) :
    height (.identifier name :: .leftParen ::
        ([TokenKind.comma].intercalate (parts.map Prod.fst) ++ [.rightParen])) ≤ n ↔
      ∀ part ∈ parts, height part.1 + 1 ≤ n := by
  cases parts with
  | nil => simp [(nests_noArguments (k := 5)).height_eq]
  | cons part parts =>
    obtain ⟨d, hinside, hd⟩ := nests_arguments ((part :: parts).map Prod.fst) (by simp)
      (List.forall_mem_map.mpr fun part hpart => (hargs part hpart).nests)
    rw [(hinside.call (k := 5)).height_eq]
    cases n with
    | zero =>
      exact iff_of_false (Nat.not_succ_le_zero _) fun hall =>
        Nat.not_succ_le_zero _ (hall part List.mem_cons_self)
    | succ n =>
      simp only [Nat.succ_le_succ_iff, hd n]
      exact List.forall_mem_map

theorem Derives.height_le (h : Derives r k kinds e) : height kinds ≤ kinds.length := by
  induction h with
  | looser _ ih => exact ih
  | binary ha hb iha ihb =>
    rw [height_binary ha hb, List.length_append, List.length_cons]
    omega
  | negate h ih =>
    rw [h.nests.negate.height_eq, List.length_cons]
    omega
  | literal h => simp [(nests_literal (k := 5) h).height_eq]
  | field => simp [(nests_field (k := 5)).height_eq]
  | lookup => simp [(nests_lookup (k := 5)).height_eq]
  | call hargs _ ih =>
    refine (height_call_le hargs).mpr fun part hpart => ?_
    have hpartLe := ih part hpart
    have hsub := (sublist_intercalate hpart).length_le
    simp only [List.length_cons, List.length_append]
    omega
  | parens h ih =>
    rw [(h.nests.parens (k := 5)).height_eq, List.length_cons, List.length_append]
    omega

end

/-! ## Reading what is derived -/

section

open ComputedFields.Parser

variable {limits : Limits} {n : Nat} {tokens : List Token}

/-- What is derived is read as its tree, if the deepest of its operands is within the limit. -/
theorem Derives.readAs (h : Derives r k kinds e) (htokens : tokens.map Token.kind = kinds)
    (hdepth : n + height kinds ≤ limits.maxDepth) :
    ReadAs ⟨r, limits⟩ n k tokens e e.nodeCount := by
  induction h generalizing n tokens with
  | looser _ ih => exact (ih htokens hdepth).loosen
  | binary ha hb iha ihb =>
    obtain ⟨left, others, rfl, hleft, hothers⟩ := List.map_eq_append_iff.mp htokens
    obtain ⟨lexeme, offset, right, rfl, hright⟩ := tokens_cons hothers
    rw [height_binary ha hb] at hdepth
    exact (iha hleft (by omega)).binary (Nat.le_refl _) rfl (ihb hright (by omega))
      (Nat.lt_succ_self _)
  | negate h ih =>
    obtain ⟨lexeme, offset, inside, rfl, hinside⟩ := tokens_cons htokens
    rw [h.nests.negate.height_eq] at hdepth
    exact (ih (n := n + 1) hinside (by omega)).negate (Nat.le_refl _) (by dsimp only; omega)
  | literal h =>
    obtain ⟨lexeme, offset, more, rfl, hmore⟩ := tokens_cons htokens
    cases List.map_eq_nil_iff.mp hmore
    refine readAs_of_primary (by decide) (by rintro rfl; cases h) fun nodes tail hcount htail => ?_
    exact (reads_primary_literal h).mpr ⟨hcount, rfl, rfl, rfl⟩
  | field h =>
    obtain ⟨lexeme, offset, more, rfl, hmore⟩ := tokens_cons htokens
    cases List.map_eq_nil_iff.mp hmore
    refine readAs_of_primary (by decide) (by simp) fun nodes tail hcount htail => ?_
    exact reads_primary_field.mpr
      ⟨hcount, rfl, _, h, .inl ⟨fun t ht => (htail t ht).1, rfl, rfl⟩⟩
  | lookup h hlink hf =>
    obtain ⟨lexeme, offset, pointed, rfl, hpointed⟩ := tokens_cons htokens
    obtain ⟨lexeme', offset', behind, rfl, hbehind⟩ := tokens_cons hpointed
    obtain ⟨lexeme'', offset'', more, rfl, hmore⟩ := tokens_cons hbehind
    cases List.map_eq_nil_iff.mp hmore
    refine readAs_of_primary (by decide) (by simp) fun nodes tail hcount htail => ?_
    exact reads_primary_field.mpr ⟨hcount, rfl, _, h,
      .inr ⟨_, _, lexeme'', offset'', _, rfl, rfl, hlink, hf, rfl⟩⟩
  | @call _ args _ hargs he ih =>
    have hinside : ∀ arg ∈ args, height arg.1 + 1 ≤ limits.maxDepth - n :=
      (height_call_le hargs).mp (Nat.le_sub_of_add_le' hdepth)
    rw [he.nodeCount_eq, he.eq_ofCall]
    refine readAs_ofCall (fun arg harg tokens htokens => ?_) (fun arg harg => ?_) (fun hne => ?_)
      htokens
    · have hle := hinside arg harg
      exact ⟨0, ih arg harg htokens (by omega)⟩
    · exact (hargs arg harg).eq_cons
    · obtain ⟨arg, harg⟩ := List.exists_mem_of_ne_nil args hne
      have hle := hinside arg harg
      dsimp only
      omega
  | parens h ih =>
    obtain ⟨lexeme, offset, more, rfl, hmore⟩ := tokens_cons htokens
    obtain ⟨inside, lexeme', offset', rfl, hinside⟩ := tokens_snoc hmore
    rw [(h.nests.parens (k := 5)).height_eq] at hdepth
    exact (ih (n := n + 1) hinside (by omega)).parens (by dsimp only; omega)

/-- What is derived is read as a whole expression, if its operands and nodes are within the
limits. -/
theorem Derives.reads_within {nodes : Nat} {tail : List Token} (h : Derives r 0 kinds e)
    (htokens : tokens.map Token.kind = kinds) (hdepth : n + 1 + height kinds ≤ limits.maxDepth)
    (hcount : nodes + e.nodeCount ≤ limits.maxNodes) (htail : Ends 0 tail) :
    Reads (expression ⟨r, limits⟩ n nodes (tokens ++ tail)) e (nodes + e.nodeCount) tail :=
  (h.readAs (n := n + 1) htokens hdepth).whole (by dsimp only; omega) hcount htail

/-- What is derived is read as a whole expression, if the limits are no less than its length. -/
theorem Derives.reads_expression {nodes : Nat} {tail : List Token} (h : Derives r 0 kinds e)
    (htokens : tokens.map Token.kind = kinds) (hdepth : n + 1 + kinds.length ≤ limits.maxDepth)
    (hcount : nodes + kinds.length ≤ limits.maxNodes) (htail : Ends 0 tail) :
    Reads (expression ⟨r, limits⟩ n nodes (tokens ++ tail)) e (nodes + e.nodeCount) tail := by
  have hnodes := h.nodeCount_le
  have hheight := h.height_le
  exact h.reads_within htokens (by omega) (by omega) htail

/-- Tokens stand for one tree at most. -/
theorem Derives.unique (h : Derives r 0 kinds e) (h' : Derives r 0 kinds e') : e' = e := by
  let tokens : List Token := kinds.map fun kind => ⟨kind, "", 0⟩
  have htokens : tokens.map Token.kind = kinds := List.map_map.trans (List.map_id kinds)
  have hread : ∀ {e}, Derives r 0 kinds e →
      Reads (expression ⟨r, ⟨1 + kinds.length, kinds.length⟩⟩ 0 0 (tokens ++ [])) e _ [] :=
    fun h => h.reads_expression htokens (by simp) (by simp) fun t ht => by cases ht
  exact (hread h').unique (hread h)

end

end ComputedFields
