import ComputedFields.Proofs.Formula.Limits
import ComputedFields.Proofs.Formula.RoundTrip
import ComputedFields.Proofs.Formula.Scale

/-!
# Printing keeps the meaning

A tree that the parser does not make may be printed too: a null is written as a call that gives it,
a negative number as the negation of another, and a call under its name in any case. What is read
back is another tree then, which has the same value on every record.
-/

namespace ComputedFields

open Value

/-! ## Names in any case -/

/-- The text has ASCII characters only. -/
def Text.IsAscii (text : String) : Prop := ∀ c ∈ text.toList, c.toNat < 128

instance (text : String) : Decidable (Text.IsAscii text) :=
  List.decidableBAll _ _

theorem Text.toUpper_of_isAscii {text : String} (h : IsAscii text) :
    toUpper text = asciiUpper text := by
  have hchars : text.toList.flatMap upperChar = text.toList.map Char.toUpper := by
    rw [List.map_eq_flatMap]
    exact List.flatMap_congr fun c hc => if_pos (h c hc)
  rw [toUpper, asciiUpper, hchars]

theorem Text.asciiUpper_asciiUpper (text : String) :
    asciiUpper (asciiUpper text) = asciiUpper text := by
  rw [asciiUpper, asciiUpper, String.toList_ofList, List.map_map]
  exact congrArg String.ofList (List.map_congr_left fun c _ => Char.toUpper_toUpper_eq_toUpper c)

/-- The parser changes the case of names, which the library does not look at. -/
theorem Library.find?_toUpper {name : String} (h : Text.IsAscii name) :
    Library.find? (Text.toUpper name) = Library.find? name := by
  rw [find?, find?, Text.toUpper_of_isAscii h, Text.asciiUpper_asciiUpper]

namespace Expr

/-! ## What is read back -/

/-- What a literal is read back as. -/
def rereadLiteral : Value → Expr
  | .null => .call "BLANK" []
  | .number n =>
    if n.normalize.negative then .negate (.literal (.number n.normalize.abs))
    else .literal (.number n.normalize)
  | value => .literal value

mutual

/-- What a printed tree is read back as. -/
def reread : Expr → Expr
  | .literal value => rereadLiteral value
  | .field f => .field f
  | .lookup link f => .lookup link f
  | .negate operand => .negate operand.reread
  | .binary op left right => .binary op left.reread right.reread
  | .conditional condition yes none => .conditional condition.reread yes.reread none
  | .conditional condition yes (some no) =>
    .conditional condition.reread yes.reread (some no.reread)
  | .call name args => .call (Text.toUpper name) (rereadAll args)

/-- What printed trees are read back as. -/
def rereadAll : List Expr → List Expr
  | [] => []
  | e :: es => e.reread :: rereadAll es

end

theorem rereadAll_eq_map (es : List Expr) : rereadAll es = es.map reread := by
  induction es with
  | nil => rfl
  | cons e es ih => rw [rereadAll, ih, List.map_cons]

/-- A node that can be written in a formula of a table, whether or not it is read back as it is: a
null or a number of either sign too, and a call under an ASCII name in any case, if it would not be
read as a choice. -/
def ExpressedIn (s : Schema) (table : TableId) : Expr → Prop
  | .literal value => value.IsExpressible
  | .call name args =>
    Token.IsWord name.toList ∧ Text.IsAscii name ∧ ¬ ReadsAsChoice (Text.toUpper name) args
  | e => e.WrittenIn s table

variable {s : Schema} {table : TableId} {r : Resolver} {e : Expr}

theorem ExpressedIn.nodeLexes (hs : s.Named) (h : e.ExpressedIn s table) :
    e.NodeLexes (s.resolver table) := by
  cases e with
  | literal value => exact h
  | call name args => exact fun rest => .inl ⟨h.1, Token.Lexes.identifier h.1⟩
  | field f =>
    have hnode : (field f).WrittenIn s table := h
    exact hnode.nodeFits hs
  | lookup link f =>
    have hnode : (lookup link f).WrittenIn s table := h
    exact hnode.nodeFits hs
  | negate | binary | conditional => trivial

/-! ## Its tokens -/

theorem derives_enclose {j k : Nat} {kinds : List TokenKind} {needed : Bool}
    (h : Derives r j kinds e) (hk : k ≤ 5) (hneeded : needed = true ↔ j < k) :
    Derives r k (enclose needed kinds) e := by
  cases needed with
  | true => exact (h.mono (Nat.zero_le j)).parens.mono hk
  | false => exact h.mono (by simpa using hneeded)

theorem derives_call {name : String} {nameOf : FieldId → String} {args : List Expr} {whole : Expr}
    (hargs : ∀ e ∈ args, Derives r e.strength (e.kinds nameOf) e.reread)
    (htree : CallTree name (args.map reread) whole) :
    Derives r 5 ([.identifier name] ++ [.leftParen] ++ kindsAll nameOf args ++ [.rightParen])
      whole := by
  let parts := args.map fun e => (e.kinds nameOf, e.reread)
  have hparts : ∀ part ∈ parts, Derives r 0 part.1 part.2 :=
    List.forall_mem_map.mpr fun e he => (hargs e he).mono (Nat.zero_le _)
  have hfst : parts.map Prod.fst = args.map (kinds nameOf) := by simp [parts]
  have hsnd : parts.map Prod.snd = args.map reread := by simp [parts]
  rw [kindsAll_eq_intercalate, ← hfst]
  exact .call hparts (hsnd ▸ htree)

theorem toUpper_blank : Text.toUpper "BLANK" = "BLANK" := by decide

theorem derives_blank : Derives r 5 [.identifier "BLANK", .leftParen, .rightParen]
    (.call "BLANK" []) := by
  have hchoice : ¬ ReadsAsChoice (Text.toUpper "BLANK") [] := by
    rintro ⟨-, h | h⟩ <;> cases h
  have htree : CallTree "BLANK" [] (.call (Text.toUpper "BLANK") []) := .call hchoice
  rw [toUpper_blank] at htree
  have hnone : ∀ e ∈ ([] : List Expr), Derives r e.strength (e.kinds FieldId.toText) e.reread := by
    simp
  exact derives_call hnone htree

theorem strength_number_of_negative {n : Decimal} (h : n.normalize.negative = true) :
    (literal (.number n)).strength = 4 := by
  have hnegative : n.negative = true := by
    rwa [Decimal.normalize_of_ne_zero] at h
    intro hzero
    rw [Decimal.normalize_of_zero hzero] at h
    cases h
  exact if_pos hnegative

theorem derives_literal {value : Value} (h : value.IsExpressible) :
    Derives r (literal value).strength (literalKinds value) (rereadLiteral value) := by
  cases value with
  | null => exact derives_blank
  | boolean b => exact .literal rfl
  | text s => exact .literal rfl
  | number n =>
    rw [rereadLiteral]
    cases hnegative : n.normalize.negative with
    | false =>
      have hstrength : (literal (.number n)).strength ≤ 5 := by
        rw [strength]
        split <;> decide
      rw [literalKinds_of_nonnegative hnegative]
      exact Derives.mono (.literal rfl) hstrength
    | true =>
      rw [literalKinds_of_negative hnegative, strength_number_of_negative hnegative]
      exact .negate (Derives.mono (.literal rfl) (by decide))
  | date _ | duration _ | list _ | error _ => exact h.elim

/-- The tokens of a printed tree stand for what it is read back as. -/
theorem derives_kinds (hs : s.Named) (e : Expr) (h : ∀ x ∈ e.nodes, x.ExpressedIn s table) :
    Derives (s.resolver table) e.strength (e.kinds (nameIn (s.resolver table))) e.reread := by
  induction e with
  | literal value => exact derives_literal (h _ (self_mem_nodes _))
  | field f =>
    have hnode : (field f).WrittenIn s table := h _ (self_mem_nodes _)
    obtain ⟨name, hname, -, hresolve⟩ := hnode.nodeFits hs
    rw [kinds, nameIn_eq hname]
    exact .field hresolve
  | lookup link f =>
    have hnode : (lookup link f).WrittenIn s table := h _ (self_mem_nodes _)
    obtain ⟨⟨name, hname, -, hresolve⟩, hlink, name', hname', -, hremote⟩ := hnode.nodeFits hs
    rw [kinds, nameIn_eq hname, nameIn_eq hname']
    exact .lookup hresolve hlink hremote
  | negate operand ih =>
    have hoperand := ih (forall_nodes_negate.mp h).2
    rw [kinds, reread]
    exact .negate (derives_enclose hoperand (by decide) decide_eq_true_iff)
  | binary op left right ihleft ihright =>
    obtain ⟨-, hleft, hright⟩ := forall_nodes_binary.mp h
    have hrank := op.level.rank_le
    rw [kinds, reread]
    exact .binary (derives_enclose (ihleft hleft) (by omega) decide_eq_true_iff)
      (derives_enclose (ihright hright) (by omega) (by rw [decide_eq_true_iff, Nat.lt_succ_iff]))
  | ifThen condition yes ihcondition ihyes =>
    obtain ⟨-, hcondition, hyes⟩ := forall_nodes_ifThen.mp h
    have hargs : ∀ e ∈ [condition, yes], Derives (s.resolver table) e.strength
        (e.kinds (nameIn (s.resolver table))) e.reread := by
      simpa using ⟨ihcondition hcondition, ihyes hyes⟩
    have hcall := derives_call hargs (.ifThen toUpper_if)
    simpa [kinds, kindsAll, reread, strength] using hcall
  | ifThenElse condition yes no ihcondition ihyes ihno =>
    obtain ⟨-, hcondition, hyes, hno⟩ := forall_nodes_ifThenElse.mp h
    have hargs : ∀ e ∈ [condition, yes, no], Derives (s.resolver table) e.strength
        (e.kinds (nameIn (s.resolver table))) e.reread := by
      simpa using ⟨ihcondition hcondition, ihyes hyes, ihno hno⟩
    have hcall := derives_call hargs (.ifThenElse toUpper_if)
    simpa [kinds, kindsAll, reread, strength] using hcall
  | call name args ih =>
    obtain ⟨⟨-, -, hchoice⟩, hargs⟩ := forall_nodes_call.mp h
    have hreread : ¬ ReadsAsChoice (Text.toUpper name) (args.map reread) := by
      rwa [ReadsAsChoice, List.length_map]
    rw [kinds, reread, rereadAll_eq_map]
    exact derives_call (fun e he => ih e he (hargs e he)) (.call hreread)

/-! ## Its value -/

variable {view : View Id} {now : Calendar.DateTime}

theorem eval_blank : (call "BLANK" []).eval view now = .null := by
  rw [eval_call]
  rfl

/-- A negative number is the negation of the number without its sign. -/
theorem applyNegate_abs {n : Decimal} (h : n.negative = true) :
    applyNegate (.number n.abs) = .number n := by
  show Value.number n.abs.neg = .number n
  rw [Decimal.neg, Decimal.abs, Bool.not_false, ← h]

theorem sameValue_rereadLiteral (value : Value) :
    SameValue ((rereadLiteral value).eval view now) value := by
  cases value with
  | null =>
    rw [rereadLiteral, eval_blank]
    rfl
  | number n =>
    have hshort : SameValue (.number n.normalize) (.number n) :=
      (Value.number n).normalize_normalize
    rw [rereadLiteral]
    split
    · rename_i hnegative
      show SameValue (applyNegate (.number n.normalize.abs)) (.number n)
      rwa [applyNegate_abs hnegative]
    · exact hshort
  | _ => rfl

/-- What a printed tree is read back as has the same value. -/
theorem sameValue_reread (view : View Id) (now : Calendar.DateTime) (e : Expr)
    (h : ∀ x ∈ e.nodes, x.ExpressedIn s table) :
    SameValue (e.reread.eval view now) (e.eval view now) := by
  induction e with
  | literal value => exact sameValue_rereadLiteral value
  | field f => rfl
  | lookup link f => rfl
  | negate operand ih => exact sameValue_applyNegate (ih (forall_nodes_negate.mp h).2)
  | binary op left right ihleft ihright =>
    obtain ⟨-, hleft, hright⟩ := forall_nodes_binary.mp h
    exact sameValue_applyBinary op (ihleft hleft) (ihright hright)
  | ifThen condition yes ihcondition ihyes =>
    obtain ⟨-, hcondition, hyes⟩ := forall_nodes_ifThen.mp h
    exact sameValue_ifThen (ihcondition hcondition) (ihyes hyes)
  | ifThenElse condition yes no ihcondition ihyes ihno =>
    obtain ⟨-, hcondition, hyes, hno⟩ := forall_nodes_ifThenElse.mp h
    exact sameValue_ifThenElse (ihcondition hcondition) (ihyes hyes) (ihno hno)
  | call name args ih =>
    obtain ⟨⟨-, hascii, -⟩, hargs⟩ := forall_nodes_call.mp h
    rw [reread, rereadAll_eq_map]
    exact sameValue_call (Library.find?_toUpper hascii)
      (List.forall₂_map_left_iff.mpr (List.forall₂_same.mpr fun e he => ih e he (hargs e he)))

/-! ## Printing and parsing -/

/-- A tree that tokens stand for is what parsing gives without limits. -/
theorem parsesTo_of_derived {source : String} {tokens : List Token}
    (htokens : tokenize source = .ok tokens) (h : Formula.Derived r tokens e) :
    ParsesTo r source (.ok e) := by
  let enough : Limits := ⟨max e.depth (nesting source), e.nodeCount⟩
  refine ⟨enough, fun limits hle => (parse_eq_ok_iff htokens).mpr ⟨h, hle.2, ?_, ?_⟩⟩
  · exact Nat.le_trans (Nat.le_max_left _ _) hle.1
  · exact Nat.le_trans (Nat.le_max_right _ _) hle.1

/-- A tree of a table can be printed and is read back, without limits, as a tree that has the same
value on every record at any time. -/
theorem toSource_keeps_value (hs : s.Built) (he : ∀ x ∈ e.nodes, x.ExpressedIn s table) :
    ∃ e', ParsesTo (s.resolver table) (e.toSource (s.resolver table)) (.ok e') ∧
      ∀ view now, (e'.eval view now).same (e.eval view now) = true := by
  have hlexes : ∀ x ∈ e.nodes, x.NodeLexes (s.resolver table) :=
    fun x hx => (he x hx).nodeLexes hs.named
  have hwords : e.CallsWords := callsWords_of_calls fun _ _ hcall => (he _ hcall).1
  obtain ⟨tokens, after, hkinds, htokens⟩ := exists_tokens hlexes hwords
  have hderived : Formula.Derived (s.resolver table) (tokens ++ [⟨.eof, "", after⟩]) e.reread :=
    ⟨_, by simp [hkinds], (derives_kinds hs.named e he).mono (Nat.zero_le _)⟩
  exact ⟨e.reread, parsesTo_of_derived htokens hderived,
    fun view now => sameValue_iff.mpr (sameValue_reread view now e he)⟩

theorem fifty_lt_capacity : 50 < Decimal.capacity := by decide

/-- A half less than nothing, with a zero more than it needs. -/
def minusHalf : Decimal := ⟨true, 50, 2, fifty_lt_capacity, two_le_maxScale⟩

/-- The sum of the orders and a null, times a negative number. -/
def lossOfOrders : Expr :=
  .binary .multiply (.literal (.number minusHalf))
    (.call "Sum" [.lookup ⟨1⟩ ⟨2⟩, .literal .null])

theorem toSource_lossOfOrders :
    (∀ x ∈ lossOfOrders.nodes, x.ExpressedIn orderSchema ⟨0⟩) ∧
      ∃ e', ParsesTo (orderSchema.resolver ⟨0⟩) (lossOfOrders.toSource (orderSchema.resolver ⟨0⟩))
          (.ok e') ∧
        ∀ view now, (e'.eval view now).same (lossOfOrders.eval view now) = true := by
  have hlookup : (lookup ⟨1⟩ ⟨2⟩).ExpressedIn orderSchema ⟨0⟩ := by
    refine ⟨⟨⟨1⟩, ⟨0⟩, "Orders", .link ⟨1⟩⟩, by decide, rfl, ⟨1⟩, rfl, ?_⟩
    exact ⟨⟨⟨2⟩, ⟨1⟩, "Amount", .plain⟩, by decide, rfl⟩
  have hsum : (call "Sum" [.lookup ⟨1⟩ ⟨2⟩, .literal .null]).ExpressedIn orderSchema ⟨0⟩ := by
    refine ⟨by decide, by decide, ?_⟩
    rintro ⟨hif, -⟩
    exact absurd hif (by decide)
  have he : ∀ x ∈ lossOfOrders.nodes, x.ExpressedIn orderSchema ⟨0⟩ := by
    simp only [lossOfOrders, nodes, nodesAll, List.cons_append, List.nil_append, List.append_nil,
      List.forall_mem_cons, hlookup, hsum, true_and]
    exact ⟨trivial, trivial, trivial, by simp⟩
  exact ⟨he, toSource_keeps_value built_orderSchema he⟩

end Expr

end ComputedFields
