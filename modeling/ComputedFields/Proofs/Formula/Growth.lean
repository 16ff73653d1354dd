import ComputedFields.Formula.Compiled
import ComputedFields.Proofs.Formula.Coupled
import ComputedFields.Proofs.Formula.RoundTrip

/-!
# Formulas of a schema that grows

Tables and fields that are added to a schema leave what it had before in place: names that were
found lead to the same fields, and links to the same tables. So a formula that could be compiled is
the same afterwards, and one that could not is refused for the same reason, unless that was a name
which was not found.
-/

namespace ComputedFields

/-! ## Growing schemas -/

namespace Schema

variable {s s' : Schema} {table : TableId} {f : FieldId} {name : String} {x : Field}
  {more : List Field}

/-- The first field with a name stays the first. -/
theorem fieldByName?_of_append (hfields : s'.fields = s.fields ++ more)
    (h : s.fieldByName? table name = some x) : s'.fieldByName? table name = some x := by
  rw [fieldByName?] at h ⊢
  rw [hfields, List.find?_append, h]
  rfl

theorem linkTarget?_eq_of_append (hfields : s'.fields = s.fields ++ more)
    (h : s.field? f = some x) : s'.linkTarget? f = s.linkTarget? f := by
  rw [linkTarget?, linkTarget?, h, field?_of_append hfields h]

end Schema

/-! ## Resolvers that find more -/

/-- What a resolver finds another one finds too, and takes for the same. -/
structure Resolver.ExtendedBy (r r' : Resolver) : Prop where
  resolve : ∀ {name f}, r.resolve name = some f → r'.resolve name = some f
  isLink : ∀ {name f}, r.resolve name = some f → r'.isLink f = r.isLink f
  resolveLinked : ∀ {link name f},
    r.resolveLinked link name = some f → r'.resolveLinked link name = some f

theorem Schema.Named.extendedBy {s s' : Schema} {more : List Field} (hs : s.Named)
    (hfields : s'.fields = s.fields ++ more) (table : TableId) :
    (s.resolver table).ExtendedBy (s'.resolver table) where
  resolve {name f} h := by
    obtain ⟨x, hx, rfl⟩ := Option.map_eq_some_iff.mp h
    exact Option.map_eq_some_iff.mpr ⟨x, fieldByName?_of_append hfields hx, rfl⟩
  isLink {name f} h := by
    obtain ⟨x, hx, rfl⟩ := Option.map_eq_some_iff.mp h
    have hfield := hs.field?_id (List.mem_filter.mp (fieldByName?_some hx).1).1
    exact congrArg Option.isSome (linkTarget?_eq_of_append hfields hfield)
  resolveLinked {link name f} h := by
    obtain ⟨target, htarget, hremote⟩ := Option.bind_eq_some_iff.mp h
    obtain ⟨x, hx, rfl⟩ := Option.map_eq_some_iff.mp hremote
    exact Option.bind_eq_some_iff.mpr ⟨target, linkTarget?_of_append hfields htarget,
      Option.map_eq_some_iff.mpr ⟨x, fieldByName?_of_append hfields hx, rfl⟩⟩

variable {r r' : Resolver} {limits : Limits} {source : String}

/-- The refusal of a name that is not found. -/
def FormulaError.IsUnknownField : FormulaError → Prop
  | .unknownField _ _ => True
  | _ => False

namespace Parser

/-- Two resolvers, one of which finds more, differ only over a name that the other does not find. -/
theorem coupled_resolvers (h : r.ExtendedBy r') :
    Coupled ⟨r, limits⟩ ⟨r', limits⟩ fun _ _ => FormulaError.IsUnknownField where
  mono _ _ _ := id
  enter _ := .refl _
  countNode _ := .refl _
  fieldReference nodes name offset tokens := by
    rw [fieldReference, fieldReference]
    dsimp only
    cases hresolve : r.resolve name with
    | none => exact .inr ⟨_, rfl, trivial⟩
    | some f =>
      rw [h.resolve hresolve]
      dsimp only
      rw [h.isLink hresolve]
      split
      · rename_i remoteName _ remoteOffset rest
        split
        · cases hremote : r.resolveLinked f remoteName with
          | none => exact .inr ⟨_, rfl, trivial⟩
          | some remote =>
            rw [h.resolveLinked hremote]
            exact .refl _
        · exact .refl _
      · exact .refl _
      · exact .refl _

end Parser

theorem Resolver.ExtendedBy.parse (h : r.ExtendedBy r') (limits : Limits) (source : String) :
    SameUnless FormulaError.IsUnknownField (Expr.parse r limits source)
      (Expr.parse r' limits source) := by
  refine (SameUnless.refl (tokenize source)).bind fun tokens _ => ?_
  exact (Parser.coupled_resolvers h).expression.bind fun read _ => .refl _

/-! ## Formulas of a schema that grows -/

/-- Additions to a schema change nothing of a formula that was compiled before, and nothing of the
reason for which one was refused, unless it reads a name that was not found. -/
theorem compile_grown {s : Schema} (hs : s.Built) (additions : List Schema.Addition)
    (table : TableId) (limits : Limits) (source : String) :
    (∀ formula, Formula.compile (s.resolver table) limits source = .ok formula →
      Formula.compile ((s.grown additions).resolver table) limits source = .ok formula) ∧
    ∀ err, Formula.compile (s.resolver table) limits source = .error err →
      (¬ ∃ name position, err = .unknownField name position) →
      Formula.compile ((s.grown additions).resolver table) limits source = .error err := by
  obtain ⟨more, hfields⟩ := s.fields_grown additions
  have hextended := hs.named.extendedBy hfields table
  have hcompile : SameUnless FormulaError.IsUnknownField
      (Formula.compile (s.resolver table) limits source)
      (Formula.compile ((s.grown additions).resolver table) limits source) :=
    (hextended.parse limits source).map (Formula.ofExpr source)
  rcases hcompile with hsame | ⟨err, herr, hunknown⟩
  · exact ⟨fun formula h => hsame.symm.trans h, fun err h _ => hsame.symm.trans h⟩
  · refine ⟨fun formula h => ?_, fun err' h hother => ?_⟩
    · cases herr.symm.trans h
    · cases herr.symm.trans h
      cases err with
      | unknownField name position => exact absurd ⟨name, position, rfl⟩ hother
      | _ => exact hunknown.elim

/-- A table, a field in it, a field of another table and a field that is refused, since there is
one of its name. -/
def someAdditions : List Schema.Addition :=
  [.table "Items", .field ⟨2⟩ "Amount" .plain, .field ⟨0⟩ "Items" (.link ⟨2⟩),
    .field ⟨1⟩ " Amount " .formula]

/-- The sum of a person's orders. -/
def orderTotal : String := "SUM(\x7bOrders\x7d.\x7bAmount\x7d)"

/-- A name behind a field that holds no links. -/
def behindAmount : String := "\x7bAmount\x7d.\x7bName\x7d"

theorem compile_grown_orderSchema :
    Schema.Built Expr.orderSchema ∧
      (∃ formula,
        Formula.compile (Expr.orderSchema.resolver ⟨0⟩) {} orderTotal = .ok formula ∧
        Formula.compile ((Expr.orderSchema.grown someAdditions).resolver ⟨0⟩) {} orderTotal =
          .ok formula) ∧
      ∃ err, Formula.compile (Expr.orderSchema.resolver ⟨1⟩) {} behindAmount = .error err ∧
        (¬ ∃ name position, err = .unknownField name position) ∧
        Formula.compile ((Expr.orderSchema.grown someAdditions).resolver ⟨1⟩) {} behindAmount =
          .error err := by
  have hcompile : Formula.compile (Expr.orderSchema.resolver ⟨0⟩) {} orderTotal =
      .ok (.ofExpr orderTotal (.call "SUM" [.lookup ⟨1⟩ ⟨2⟩])) := by cbv
  have hrefused : Formula.compile (Expr.orderSchema.resolver ⟨1⟩) {} behindAmount =
      .error (.notALinkField "Amount" 0) := by conv => lhs; cbv
  have hother : ¬ ∃ name position,
      FormulaError.notALinkField "Amount" 0 = .unknownField name position := by
    rintro ⟨name, position, h⟩
    cases h
  have hbuilt := Expr.built_orderSchema
  exact ⟨hbuilt, ⟨_, hcompile, (compile_grown hbuilt someAdditions _ _ _).1 _ hcompile⟩,
    _, hrefused, hother, (compile_grown hbuilt someAdditions _ _ _).2 _ hrefused hother⟩

end ComputedFields
