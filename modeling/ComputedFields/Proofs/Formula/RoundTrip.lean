import ComputedFields.Proofs.Formula.Accepted
import ComputedFields.Proofs.Formula.Parsing
import ComputedFields.Proofs.Value.Normal
import Mathlib

/-!
# Printing and parsing

Parsing is the inverse of printing, up to the way numbers are written, on every tree of the fields
of a table whose calls have words in upper case for names. The parser makes no other trees, but for
calls whose names are no words once they are in upper case; those it refuses to read again.
-/

namespace ComputedFields

/-! ## Trees in shortest form -/

namespace Expr

variable {r : Resolver} {limits : Limits} {e : Expr}

theorem depthAll_normalizeAll {es : List Expr} (h : ∀ e ∈ es, e.normalize.depth = e.depth) :
    depthAll (normalizeAll es) = depthAll es := by
  induction es with
  | nil => rw [normalizeAll]
  | cons e es ih =>
    obtain ⟨he, hes⟩ := List.forall_mem_cons.mp h
    rw [normalizeAll, depthAll, depthAll, he, ih hes]

theorem depth_normalize (e : Expr) : e.normalize.depth = e.depth := by
  induction e with
  | literal value => rw [normalize, depth, depth]
  | field f => rw [normalize]
  | lookup link f => rw [normalize]
  | negate operand ih => rw [normalize, depth, depth, ih]
  | binary op left right ihleft ihright => rw [normalize, depth, depth, ihleft, ihright]
  | ifThen condition yes ihcondition ihyes => rw [normalize, depth, depth, ihcondition, ihyes]
  | ifThenElse condition yes no ihcondition ihyes ihno =>
    rw [normalize, depth, depth, ihcondition, ihyes, ihno]
  | call name args ih => rw [normalize, depth, depth, depthAll_normalizeAll ih]

theorem normalize_normalize (e : Expr) : e.normalize.normalize = e.normalize := by
  induction e with
  | literal value => rw [normalize, normalize, value.normalize_normalize]
  | field f => rw [normalize, normalize]
  | lookup link f => rw [normalize, normalize]
  | negate operand ih => rw [normalize, normalize, ih]
  | binary op left right ihleft ihright => rw [normalize, normalize, ihleft, ihright]
  | ifThen condition yes ihcondition ihyes => rw [normalize, normalize, ihcondition, ihyes]
  | ifThenElse condition yes no ihcondition ihyes ihno =>
    rw [normalize, normalize, ihcondition, ihyes, ihno]
  | call name args ih =>
    have hargs : normalizeAll (normalizeAll args) = normalizeAll args := by
      rw [normalizeAll_eq_map, normalizeAll_eq_map, List.map_map]
      exact List.map_congr_left ih
    rw [normalize, normalize, hargs]

theorem same_normalize (e : Expr) : e.normalize.same e = true := by
  rw [same, normalize_normalize]
  exact beq_self_eq_true _

/-! ## Whole formulas -/

/-- A printed tree is read back with its numbers in shortest form. -/
theorem parse_of_callsWords (h : e.Fits r) (hwords : e.CallsWords)
    (hdepth : e.depth ≤ limits.maxDepth) (hcount : e.nodeCount ≤ limits.maxNodes) :
    Expr.parse r limits (e.toSource r) = .ok e.normalize := by
  obtain ⟨tokens, after, hkinds, htokens⟩ := exists_tokens (fun x hx => (h x hx).nodeLexes) hwords
  -- the whole formula is an expression one level deep, which its slack makes up for
  have hslack := e.one_le_slack
  have hback : Parser.ReadAs ⟨r, limits⟩ 1 e.strength tokens e.normalize e.nodeCount :=
    readsBack_of_fits e h 1 tokens hkinds (by dsimp only; omega)
  have hwhole : Parser.Reads (Parser.expression ⟨r, limits⟩ 0 0 (tokens ++ [⟨.eof, "", after⟩]))
      e.normalize _ _ :=
    hback.whole (Nat.le_trans e.depth_pos hdepth) (by simpa using hcount) (Parser.ends_eof rfl)
  rw [Expr.parse, htokens]
  exact Parser.wholeFormula_eq_ok.mpr ⟨_, _, [], hwhole, rfl, by rwa [depth_normalize]⟩

/-- A printed tree with a call that has no word for a name cannot be read. -/
theorem parse_of_not_callsWords (limits : Limits) (h : e.Fits r) (hwords : ¬ e.CallsWords) :
    ∃ err, Expr.parse r limits (e.toSource r) = .error err := by
  rcases lexesBack_of_fits e h [] .nil with ⟨hwords', -⟩ | ⟨-, hstuck⟩
  · exact absurd hwords' hwords
  · obtain ⟨err, herr⟩ := hstuck 0
    rw [List.append_nil] at herr
    refine ⟨err, ?_⟩
    rw [Expr.parse, tokenize, toSource, String.toList_ofList, herr]
    rfl

/-! ## Trees of a table -/

/-- A node that can be written in a formula of a table: a literal that is a truth value, a text or
a number that is not negative, a field of the table, a field that a link field of the table leads
to, or a call of a word that is its own upper case and no choice; or a node made of others. -/
def WrittenIn (s : Schema) (table : TableId) : Expr → Prop
  | .literal value => value.IsLiteral
  | .field f => ∃ x ∈ s.fieldsIn table, x.id = f
  | .lookup link f => ∃ x ∈ s.fieldsIn table, x.id = link ∧
      ∃ target, x.kind = .link target ∧ ∃ y ∈ s.fieldsIn target, y.id = f
  | .call name args =>
    Token.IsWord name.toList ∧ Text.toUpper name = name ∧ ¬ ReadsAsChoice name args
  | .negate _ | .binary _ _ _ | .conditional _ _ _ => True

variable {s : Schema} {table : TableId}

theorem WrittenIn.nodeFits (hs : s.Named) (h : e.WrittenIn s table) :
    e.NodeFits (s.resolver table) := by
  cases e with
  | literal value => exact h
  | field f =>
    obtain ⟨x, hx, rfl⟩ := h
    exact hs.names hx
  | lookup link f =>
    obtain ⟨x, hx, rfl, target, hkind, y, hy, rfl⟩ := h
    exact hs.follows hx hkind hy
  | call name args =>
    obtain ⟨hword, hupper, hchoice⟩ := h
    exact ⟨⟨name, hword, hupper.symm⟩, hchoice⟩
  | negate | binary | conditional => trivial

/-- Printing a tree of a table and parsing it again gives the tree back, within any limits that the
tree is within. -/
theorem parse_toSource (hs : s.Built) (he : ∀ x ∈ e.nodes, x.WrittenIn s table)
    (hdepth : e.depth ≤ limits.maxDepth) (hcount : e.nodeCount ≤ limits.maxNodes) :
    Expr.parse (s.resolver table) limits (e.toSource (s.resolver table)) = .ok e.normalize ∧
      e.normalize.same e = true := by
  have hfits : e.Fits (s.resolver table) := fun x hx => (he x hx).nodeFits hs.named
  have hwords : e.CallsWords := callsWords_of_calls fun _ _ hcall => (he _ hcall).1
  exact ⟨parse_of_callsWords hfits hwords hdepth hcount, e.same_normalize⟩

/-- People with a link to their orders. -/
def orderSchema : Schema where
  tables := ["People", "Orders"]
  fields := [⟨⟨0⟩, ⟨0⟩, "Limit \x7bEUR\x7d", .plain⟩, ⟨⟨1⟩, ⟨0⟩, "Orders", .link ⟨1⟩⟩,
    ⟨⟨2⟩, ⟨1⟩, "Amount", .plain⟩]

theorem built_orderSchema : orderSchema.Built := by
  have hlimit : Schema.addField ⟨["People", "Orders"], []⟩ ⟨0⟩ "Limit \x7bEUR\x7d" .plain =
      .ok (⟨["People", "Orders"], orderSchema.fields.take 1⟩, ⟨0⟩) := by rfl
  have hlink : Schema.addField ⟨["People", "Orders"], orderSchema.fields.take 1⟩ ⟨0⟩ " Orders "
      (.link ⟨1⟩) = .ok (⟨["People", "Orders"], orderSchema.fields.take 2⟩, ⟨1⟩) := by rfl
  have hamount : Schema.addField ⟨["People", "Orders"], orderSchema.fields.take 2⟩ ⟨1⟩ "Amount"
      .plain = .ok (orderSchema, ⟨2⟩) := by rfl
  have htables := (Schema.Built.empty.addTable "People").addTable "Orders"
  exact ((htables.addField hlimit).addField hlink).addField hamount

theorem ten_lt_capacity : 10 < Decimal.capacity := by decide

theorem two_le_maxScale : 2 ≤ Decimal.maxScale := by decide

/-- Ten percent, with a zero more than it needs. -/
def tenth : Decimal := ⟨false, 10, 2, ten_lt_capacity, two_le_maxScale⟩

/-- Whether the sum of the orders, less ten percent, is above the limit. -/
def overLimit : Expr :=
  .conditional
    (.binary .greaterThan
      (.binary .multiply (.call "SUM" [.lookup ⟨1⟩ ⟨2⟩])
        (.binary .subtract (.literal (.number .one)) (.literal (.number tenth))))
      (.field ⟨0⟩))
    (.literal (.text "over \"limit\"")) (some (.negate (.binary .concat
      (.literal (.boolean true)) (.field ⟨0⟩))))

theorem parse_overLimit :
    Expr.parse (orderSchema.resolver ⟨0⟩) ⟨5, 14⟩ (overLimit.toSource (orderSchema.resolver ⟨0⟩)) =
        .ok overLimit.normalize ∧ overLimit.normalize.same overLimit = true := by
  have hfield : (field ⟨0⟩).WrittenIn orderSchema ⟨0⟩ :=
    ⟨_, List.mem_filter.mpr ⟨List.mem_cons_self, by decide⟩, rfl⟩
  have hlookup : (lookup ⟨1⟩ ⟨2⟩).WrittenIn orderSchema ⟨0⟩ := by
    refine ⟨⟨⟨1⟩, ⟨0⟩, "Orders", .link ⟨1⟩⟩, by decide, rfl, ⟨1⟩, rfl, ?_⟩
    exact ⟨⟨⟨2⟩, ⟨1⟩, "Amount", .plain⟩, by decide, rfl⟩
  have hsum : (call "SUM" [.lookup ⟨1⟩ ⟨2⟩]).WrittenIn orderSchema ⟨0⟩ := by
    refine ⟨by decide, by decide, ?_⟩
    rintro ⟨hif, -⟩
    exact absurd hif (by decide)
  have hone : (literal (.number .one)).WrittenIn orderSchema ⟨0⟩ :=
    show 0 ≤ Decimal.one.signed by decide
  have htenth : (literal (.number tenth)).WrittenIn orderSchema ⟨0⟩ :=
    show 0 ≤ tenth.signed by decide
  have he : ∀ x ∈ overLimit.nodes, x.WrittenIn orderSchema ⟨0⟩ := by
    simp only [overLimit, nodes, nodesAll, List.cons_append, List.nil_append, List.append_nil,
      List.forall_mem_cons, hfield, hlookup, hsum, true_and]
    exact ⟨trivial, trivial, trivial, trivial, hone, htenth, trivial, trivial, trivial, trivial,
      by simp⟩
  exact parse_toSource built_orderSchema he (by decide) (by decide)

/-! ## Formulas that are accepted -/

/-- An accepted formula is accepted again when it is printed, as the same tree, just if the names
of its calls are words in upper case too. -/
theorem reparse_iff {source : String} (hs : s.Built)
    (h : Expr.parse (s.resolver table) limits source = .ok e) :
    (∃ e', Expr.parse (s.resolver table) limits (e.toSource (s.resolver table)) = .ok e' ∧
      e'.same e = true) ↔ e.CallsWords := by
  obtain ⟨hfits, hdepth, hcount⟩ := fits_of_parse (hs.named.faithful table) h
  constructor
  · rintro ⟨e', hok, -⟩
    by_contra hwords
    obtain ⟨err, herr⟩ := parse_of_not_callsWords limits hfits hwords
    rw [hok] at herr
    cases herr
  · intro hwords
    exact ⟨e.normalize, parse_of_callsWords hfits hwords hdepth hcount, e.same_normalize⟩

theorem parse_caron : Expr.parse (orderSchema.resolver ⟨0⟩) {} "ǰ(1)" =
    .ok (.call "J̌" [.literal (.number .one)]) := by
  cbv

theorem not_isWord_caron : ¬ Token.IsWord "J̌".toList := by
  decide

/-- A small letter that two characters together are the upper case of makes a name that is
accepted once only. -/
theorem not_reparsed_caron : ∃ e, Expr.parse (orderSchema.resolver ⟨0⟩) {} "ǰ(1)" = .ok e ∧
    ¬ ∃ e', Expr.parse (orderSchema.resolver ⟨0⟩) {} (e.toSource (orderSchema.resolver ⟨0⟩)) =
      .ok e' ∧ e'.same e = true := by
  refine ⟨_, parse_caron, fun h => not_isWord_caron ?_⟩
  exact (reparse_iff built_orderSchema parse_caron).mp h _ (self_mem_nodes _) _ rfl

end Expr

end ComputedFields
