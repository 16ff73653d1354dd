import ComputedFields.Formula.Token

/-!
# Nesting of tokens

How deep the operands of a formula lie within parentheses, in the arguments of calls and behind
signs. The kinds of its tokens tell it, from left to right and without any reading of trees. Tokens
that stand for a tree have a height of their own: wherever they stand, the deepest of their operands
is that much deeper.
-/

namespace ComputedFields

/-- A literal, a field or a call starts with the token. -/
def TokenKind.startsOperand : TokenKind → Bool
  | .number _ | .text _ | .boolean _ | .field _ | .identifier _ => true
  | _ => false

/-- Where the next token stands. -/
structure Place where
  /-- The depth of the parentheses or arguments that it is in. -/
  group : Nat
  /-- How many signs stand before the operand that it belongs to. -/
  signs : Nat
  /-- The depths of the parentheses and arguments around those, from inside out. -/
  around : List Nat
  /-- Whether an operand has just ended, so that a minus is no sign. -/
  ended : Bool
deriving DecidableEq, Repr

namespace Place

/-- The depth of the operand that comes next. -/
def depth (p : Place) : Nat := p.group + p.signs

/-- The place behind an operand. -/
def finished (p : Place) : Place := { p with signs := 0, ended := true }

/-- The place behind a token. -/
def next (p : Place) : TokenKind → Place
  | .leftParen => ⟨p.depth + 1, 0, p.group :: p.around, false⟩
  | .rightParen => ⟨p.around.headD p.group, 0, p.around.tail, true⟩
  | .minus => if p.ended then { p with ended := false } else { p with signs := p.signs + 1 }
  | .number _ | .text _ | .boolean _ | .field _ => p.finished
  -- the operand goes on with the arguments
  | .identifier _ => p
  | _ => { p with ended := false }

/-- The depth of the deepest operand from here on. -/
def deepest (p : Place) : List TokenKind → Nat
  | [] => 0
  | kind :: kinds =>
    let after := (p.next kind).deepest kinds
    if kind.startsOperand then max p.depth after else after

end Place

/-- How deep the operands among the tokens lie below the place where the tokens start. -/
def height (kinds : List TokenKind) : Nat := (⟨0, 0, [], false⟩ : Place).deepest kinds

/-! ## Tokens with a height of their own -/

/-- The tokens are an operand of height `d` wherever they stand; where they bind less tightly than
signs do, no signs stand before them. -/
def Nests (k : Nat) (kinds : List TokenKind) (d : Nat) : Prop :=
  ∀ (p : Place) (more : List TokenKind), p.ended = false → (k < 4 → p.signs = 0) →
    p.deepest (kinds ++ more) = max (p.depth + d) (p.finished.deepest more)

/-- Operands come before and after the token. -/
def Separates (kind : TokenKind) : Prop :=
  kind.startsOperand = false ∧ ∀ p : Place, p.ended = true → p.next kind = { p with ended := false }

variable {j k d d' : Nat} {name : String} {kind : TokenKind} {kinds left right : List TokenKind}
  {p : Place}

theorem Place.deepest_operand (h : kind.startsOperand = true) :
    p.deepest (kind :: kinds) = max p.depth ((p.next kind).deepest kinds) := by
  rw [deepest, if_pos h]

theorem Place.deepest_other (h : kind.startsOperand = false) :
    p.deepest (kind :: kinds) = (p.next kind).deepest kinds := by
  rw [deepest, if_neg (by simp [h])]

theorem Nests.height_eq (h : Nests k kinds d) : height kinds = d := by
  have hstart := h ⟨0, 0, [], false⟩ [] rfl fun _ => rfl
  rw [List.append_nil] at hstart
  exact hstart.trans (by simp [Place.depth, Place.deepest])

theorem Nests.self (h : Nests k kinds d) : Nests k kinds (height kinds) := by
  rwa [h.height_eq]

/-- What the end of the source adds to a formula. -/
theorem Nests.height_eof (h : Nests k kinds d) : height (kinds ++ [.eof]) = height kinds := by
  have hend := h ⟨0, 0, [], false⟩ [.eof] rfl fun _ => rfl
  rw [h.height_eq]
  simpa [height, Place.depth, Place.deepest, TokenKind.startsOperand] using hend

theorem Nests.looser (h : Nests (k + 1) kinds d) : Nests k kinds d :=
  fun p more hended hsigns => h p more hended fun hk => hsigns (by omega)

theorem nests_operand (hstarts : kind.startsOperand = true)
    (hnext : ∀ p : Place, p.next kind = p.finished) : Nests k [kind] 0 := by
  intro p more _ _
  rw [List.singleton_append, Place.deepest_operand hstarts, hnext, Nat.add_zero]

theorem nests_field : Nests k [.field name] 0 := nests_operand rfl fun _ => rfl

theorem nests_lookup {name' : String} : Nests k [.field name, .dot, .field name'] 0 := by
  intro p more _ _
  have hdepth : p.group ≤ p.depth := Nat.le_add_right _ _
  show max p.depth (max p.group (p.finished.deepest more)) = _
  omega

theorem nests_noArguments : Nests k [.identifier name, .leftParen, .rightParen] 0 :=
  fun _ _ _ _ => rfl

theorem Nests.negate (h : Nests 4 kinds d) : Nests 4 (.minus :: kinds) (d + 1) := by
  intro p more hended _
  have hnext : p.next .minus = { p with signs := p.signs + 1 } := by simp [Place.next, hended]
  have hinside := h { p with signs := p.signs + 1 } more hended (absurd · (by decide))
  have hdepth : p.group + (p.signs + 1) + d = p.depth + (d + 1) := by rw [Place.depth]; omega
  rw [List.cons_append, Place.deepest_other rfl, hnext, hinside, ← hdepth]
  rfl

theorem Nests.parens (h : Nests 0 kinds d) :
    Nests k (.leftParen :: (kinds ++ [.rightParen])) (d + 1) := by
  intro p more _ _
  have hinside := h (p.next .leftParen) (.rightParen :: more) rfl fun _ => rfl
  have hdepth : (p.next .leftParen).depth + d = p.depth + (d + 1) := by
    show p.depth + 1 + d = p.depth + (d + 1)
    omega
  rw [List.cons_append, List.append_assoc, Place.deepest_other rfl, List.singleton_append, hinside,
    hdepth]
  rfl

theorem Nests.call (h : Nests 0 kinds d) :
    Nests k (.identifier name :: .leftParen :: (kinds ++ [.rightParen])) (d + 1) := by
  intro p more hended hsigns
  rw [List.cons_append, Place.deepest_operand rfl, Place.next, h.parens p more hended hsigns]
  omega

theorem Nests.separated (ha : Nests k left d) (hk : k < 4) (hkind : Separates kind)
    (hb : Nests j right d') : Nests k (left ++ kind :: right) (max d d') := by
  intro p more hended hsigns
  have hdepth : p.depth = p.group := by rw [Place.depth, hsigns hk, Nat.add_zero]
  have hright := hb { p.finished with ended := false } more rfl fun _ => rfl
  rw [List.append_assoc, ha p _ hended hsigns, List.cons_append, Place.deepest_other hkind.1,
    hkind.2 _ rfl, hright, hdepth]
  show max (p.group + d) (max (p.group + d') (p.finished.deepest more)) = _
  omega

theorem separates_comma : Separates .comma := ⟨rfl, fun _ _ => rfl⟩

/-- Arguments are as high as the highest of them. -/
theorem nests_arguments (parts : List (List TokenKind)) (hne : parts ≠ [])
    (h : ∀ part ∈ parts, Nests 0 part (height part)) :
    ∃ d, Nests 0 ([TokenKind.comma].intercalate parts) d ∧
      ∀ n, d ≤ n ↔ ∀ part ∈ parts, height part ≤ n := by
  induction parts with
  | nil => exact absurd rfl hne
  | cons part parts ih =>
    obtain ⟨hpart, hparts⟩ := List.forall_mem_cons.mp h
    cases parts with
    | nil => exact ⟨height part, by simpa using hpart, by simp⟩
    | cons next parts =>
      obtain ⟨d, hmore, hd⟩ := ih (by simp) hparts
      refine ⟨max (height part) d, ?_, fun n => ?_⟩
      · rw [List.intercalate_cons_cons, List.append_assoc]
        exact hpart.separated (by decide) separates_comma hmore
      · rw [Nat.max_le, hd, List.forall_mem_cons (a := part)]

end ComputedFields
