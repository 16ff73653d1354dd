import ComputedFields.Proofs.Engine.Histories
import ComputedFields.Proofs.Formula.Blame
import ComputedFields.Proofs.Graph.Cycles

/-!
# What a defined formula may read

A formula is checked twice: its names have to lead to fields, and then what they have led to has to
be within reach of its table. The two agree: a table has a way to just what its formulas have names
for. So the second check refuses nothing that the first lets through.
-/

namespace ComputedFields

/-- The formulas of a resolver have names for what a reference reads. -/
def Reference.NamedBy (r : Resolver) : Reference → Prop
  | .field f => r.Names f
  | .linked link f => r.Follows link f

/-! ## Names and reach -/

namespace Schema

variable {s : Schema} {table : TableId} {f : FieldId} {name : String}

theorem Named.exists_of_owns (h : s.Named) (howns : s.Owns table f) :
    ∃ x ∈ s.fieldsIn table, x.id = f ∧ s.field? f = some x := by
  obtain ⟨x, hx, htable⟩ := Option.map_eq_some_iff.mp howns
  exact ⟨x, List.mem_filter.mpr ⟨List.mem_of_getElem? hx, by simpa using htable⟩,
    h.ids f.index x hx, hx⟩

theorem Named.owns_of_mem (h : s.Named) {x : Field} (hx : x ∈ s.fieldsIn table) :
    s.Owns table x.id := by
  obtain ⟨hmem, htable⟩ := List.mem_filter.mp hx
  rw [Owns, h.field?_id hmem, Option.map_some]
  simpa using htable

/-- What a name of a table's formulas leads to is a field of the table. -/
theorem Named.owns_of_resolve (h : s.Named) (hname : (s.resolver table).resolve name = some f) :
    s.Owns table f := by
  obtain ⟨x, hx, rfl⟩ := Option.map_eq_some_iff.mp hname
  exact h.owns_of_mem (fieldByName?_some hx).1

/-- What a name leads to behind a link field is a field of the table that the link leads to. -/
theorem Named.owns_of_resolveLinked (h : s.Named) {link : FieldId}
    (hname : (s.resolver table).resolveLinked link name = some f) :
    ∃ target, s.linkTarget? link = some target ∧ s.Owns target f := by
  obtain ⟨target, htarget, hname⟩ := Option.bind_eq_some_iff.mp hname
  obtain ⟨x, hx, rfl⟩ := Option.map_eq_some_iff.mp hname
  exact ⟨target, htarget, h.owns_of_mem (fieldByName?_some hx).1⟩

end Schema

/-- A table has a way to just what its formulas have names for. -/
theorem Reference.available_iff_namedBy {schema : Schema} (h : schema.Named) {table : TableId}
    {reference : Reference} :
    reference.Available schema table ↔ reference.NamedBy (schema.resolver table) := by
  cases reference with
  | field f =>
    constructor
    · intro howns
      obtain ⟨x, hx, rfl, -⟩ := h.exists_of_owns howns
      exact h.names hx
    · rintro ⟨name, -, -, hname⟩
      exact h.owns_of_resolve hname
  | linked link f =>
    constructor
    · rintro ⟨hlink, target, htarget, hf⟩
      obtain ⟨x, hx, rfl, hfield⟩ := h.exists_of_owns hlink
      obtain ⟨y, hy, rfl, -⟩ := h.exists_of_owns hf
      exact h.follows hx (Schema.kind_of_linkTarget? hfield htarget) hy
    · rintro ⟨⟨name, -, -, hname⟩, -, name', -, -, hname'⟩
      exact ⟨h.owns_of_resolve hname, h.owns_of_resolveLinked hname'⟩

/-- Whatever a compiled formula refers to its resolver has names for. -/
theorem Formula.namedBy_of_compile {r : Resolver} (hr : r.Faithful) {limits : Limits}
    {source : String} {formula : Formula} (h : compile r limits source = .ok formula) :
    ∀ reference ∈ formula.references, reference.NamedBy r := by
  intro reference hmem
  obtain ⟨root, hparse, rfl⟩ := ok_of_map h
  obtain ⟨x, hx, href⟩ := mem_references.mp hmem
  have hfits := (Expr.fits_of_parse hr hparse).1 x hx
  cases x with
  | field f =>
    cases href
    exact hfits
  | lookup link f =>
    cases href
    exact hfits
  | _ => cases href

theorem Formula.refusesSource_of_compile {r : Resolver} {limits : Limits} {source : String}
    {err : FormulaError} (h : compile r limits source = .error err) : err.RefusesSource := by
  rw [compile] at h
  cases hparse : Expr.parse r limits source with
  | error err' =>
    rw [hparse] at h
    cases h
    exact Expr.refusesSource_of_parse hparse
  | ok root =>
    rw [hparse] at h
    cases h

namespace Engine

variable {e : Engine} {f : FieldId} {schema : Schema} {table : TableId} {reference : Reference}
  {source : String}

/-! ## The check of references -/

theorem checkOwner_of_owns (h : schema.Owns table f) : checkOwner schema f table = .ok () :=
  if_pos h

theorem checkReference_iff :
    checkReference schema table reference = .ok () ↔ reference.Available schema table := by
  refine ⟨available_of_checkReference, fun h => ?_⟩
  cases reference with
  | field f => exact checkOwner_of_owns h
  | linked link f =>
    obtain ⟨hlink, target, htarget, hf⟩ := h
    rw [checkReference, checkOwner_of_owns hlink, htarget]
    exact checkOwner_of_owns hf

theorem checkReferences_of_available {references : List Reference}
    (h : ∀ reference ∈ references, reference.Available schema table) :
    checkReferences schema table references = .ok () := by
  induction references with
  | nil => rfl
  | cons reference rest ih =>
    obtain ⟨hreference, hrest⟩ := List.forall_mem_cons.mp h
    rw [checkReferences, checkReference_iff.mpr hreference]
    exact ih hrest

/-! ## Definitions -/

theorem formulaTable?_of_field? {own : Field} (hown : e.schema.field? f = some own)
    (hkind : own.kind = .formula) : e.formulaTable? f = some own.table := by
  rw [formulaTable?, if_pos (Schema.isFormula_of_field? hown hkind), hown]
  rfl

theorem define_eq {own : Field} (hown : e.schema.field? f = some own) :
    e.define f source = e.compile own.table source >>= e.register f := by
  rw [define, hown]

/-- Where all references are within reach, registering fails on a circle only. -/
theorem register_outcome {own : Field} {formula : Formula} (hown : e.schema.field? f = some own)
    (hkind : own.kind = .formula)
    (hcheck : checkReferences e.schema own.table formula.references = .ok ()) :
    (∃ path, e.register f formula = .error (.circularDependency path)) ∨
      ∃ result, e.register f formula = .ok result := by
  rw [register, formulaTable?_of_field? hown hkind]
  show (∃ path, (checkReferences e.schema own.table formula.references >>= _) =
      .error (.circularDependency path)) ∨
    ∃ result, (checkReferences e.schema own.table formula.references >>= _) = .ok result
  rw [bind_of_ok hcheck]
  cases hset : e.graph.setReads f formula.references with
  | error err =>
    obtain ⟨path, rfl, -⟩ := DependencyGraph.setReads_error hset
    exact .inl ⟨path, rfl⟩
  | ok result => exact .inr ⟨_, rfl⟩

/-- A formula is defined as far as its source compiles: an error of the source is the result, and
else only a circle is in the way. -/
theorem define_cases {own : Field} (hnamed : e.schema.Named) (hown : e.schema.field? f = some own)
    (hkind : own.kind = .formula) (source : String) :
    (∃ err, e.compile own.table source = .error err ∧ err.RefusesSource ∧
        e.define f source = .error err) ∨
      ∃ formula, e.compile own.table source = .ok formula ∧
        checkReferences e.schema own.table formula.references = .ok () ∧
        ((∃ path, e.define f source = .error (.circularDependency path)) ∨
          ∃ result, e.define f source = .ok result) := by
  rw [define_eq hown]
  cases hcompile : e.compile own.table source with
  | error err => exact .inl ⟨err, rfl, Formula.refusesSource_of_compile hcompile, rfl⟩
  | ok formula =>
    have hcheck : checkReferences e.schema own.table formula.references = .ok () :=
      checkReferences_of_available fun reference hmem =>
        (Reference.available_iff_namedBy hnamed).mpr
          (Formula.namedBy_of_compile (hnamed.faithful own.table) hcompile reference hmem)
    exact .inr ⟨formula, rfl, hcheck, register_outcome hown hkind hcheck⟩

/-- After any events, and for every formula field: what the names in a source text lead to is what
the engine's check of references lets through. Defining the formula that a source text describes
fails as compiling it does; if it compiles, it fails on a circle only. So it is never refused for a
reference out of reach, or for want of a formula field. -/
theorem define_agrees_with_compile {schema : Schema} (hbuilt : schema.Built) (store : Store)
    (options : EngineOptions) (events : List Event) :
    let e := history schema store options events
    ∀ (f : FieldId) (own : Field), e.schema.field? f = some own → own.kind = .formula →
      (∀ reference, checkReference e.schema own.table reference = .ok () ↔
        reference.NamedBy (e.schema.resolver own.table)) ∧
      ∀ source,
        (∀ err, e.compile own.table source = .error err → e.define f source = .error err) ∧
        (∀ formula, e.compile own.table source = .ok formula →
          checkReferences e.schema own.table formula.references = .ok () ∧
          ((∃ path, e.define f source = .error (.circularDependency path)) ∨
            ∃ result, e.define f source = .ok result)) ∧
        ∀ err, e.define f source = .error err →
          (∀ g, err ≠ .noFormula g) ∧ ∀ g table, err ≠ .foreignField g table := by
  intro e f own hown hkind
  have hnamed : e.schema.Named := (history_enrolled hbuilt.named store options events).named
  refine ⟨fun reference => checkReference_iff.trans (Reference.available_iff_namedBy hnamed),
    fun source => ?_⟩
  rcases define_cases hnamed hown hkind source with
    ⟨err, hcompile, hrefuses, hdefine⟩ | ⟨formula, hcompile, hcheck, houtcome⟩
  · rw [hcompile, hdefine]
    refine ⟨fun err' h => ?_, fun formula h => ?_, fun err' h => ?_⟩
    · cases h
      rfl
    · cases h
    · cases h
      -- the errors of a source text are other ones
      constructor
      · rintro g rfl
        exact hrefuses
      · rintro g table rfl
        exact hrefuses
  · rw [hcompile]
    refine ⟨fun err h => ?_, fun formula' h => ?_, fun err h => ?_⟩
    · cases h
    · cases h
      exact ⟨hcheck, houtcome⟩
    · rcases houtcome with ⟨path, hcircle⟩ | ⟨result, hok⟩
      · cases hcircle.symm.trans h
        exact ⟨fun g => nofun, fun g table => nofun⟩
      · cases hok.symm.trans h

/-- People with friends among themselves. -/
def friendSchema : Schema where
  tables := ["people"]
  fields := [⟨⟨0⟩, ⟨0⟩, "friends", .link ⟨0⟩⟩, ⟨⟨1⟩, ⟨0⟩, "score", .formula⟩]

theorem built_friendSchema : friendSchema.Built := by
  have hfriends : Schema.addField ⟨["people"], []⟩ ⟨0⟩ "friends" (.link ⟨0⟩) =
      .ok (⟨["people"], friendSchema.fields.take 1⟩, ⟨0⟩) := by rfl
  have hscore : Schema.addField ⟨["people"], friendSchema.fields.take 1⟩ ⟨0⟩ "score" .formula =
      .ok (friendSchema, ⟨1⟩) := by rfl
  exact ((Schema.Built.empty.addTable "people").addField hfriends).addField hscore

/-- A formula that was defined before. -/
def scored : List Event := [.operate (.define ⟨1⟩ "1")]

/-- A formula that shows the scores of friends. -/
def friendScores : Formula := .ofExpr "{friends}.{score}" (.lookup ⟨0⟩ ⟨1⟩)

/-- As a score, it compiles, and is refused for the circle alone. -/
theorem define_friendScores :
    (history friendSchema .empty newYear scored).compile ⟨0⟩ friendScores.source =
        .ok friendScores ∧
      checkReferences (history friendSchema .empty newYear scored).schema ⟨0⟩
        friendScores.references = .ok () ∧
      ∃ path, (history friendSchema .empty newYear scored).define ⟨1⟩ friendScores.source =
        .error (.circularDependency path) := by
  have hown : (history friendSchema .empty newYear scored).schema.field? ⟨1⟩ =
      some ⟨⟨1⟩, ⟨0⟩, "score", .formula⟩ := by cbv
  have hcompile : (history friendSchema .empty newYear scored).compile ⟨0⟩ friendScores.source =
      .ok friendScores := by cbv
  obtain ⟨-, hdefine⟩ :=
    define_agrees_with_compile built_friendSchema .empty newYear scored ⟨1⟩ _ hown rfl
  obtain ⟨-, hcompiled, -⟩ := hdefine friendScores.source
  obtain ⟨hcheck, hcircle | ⟨result, hok⟩⟩ := hcompiled friendScores hcompile
  · exact ⟨hcompile, hcheck, hcircle⟩
  · have hcircle : (history friendSchema .empty newYear scored).define ⟨1⟩ friendScores.source =
        .error (.circularDependency [⟨1⟩]) := by cbv
    cases hcircle.symm.trans hok

end Engine

end ComputedFields
