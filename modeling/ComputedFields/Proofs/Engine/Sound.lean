import ComputedFields.Engine.Definition
import ComputedFields.Engine.Recomputation
import ComputedFields.Proofs.Except
import ComputedFields.Proofs.Graph.Acyclic
import ComputedFields.Proofs.Schema

/-!
# Sound engines

In a sound engine the graph holds the edges of the registered formulas and of nothing else, and
has no cycle. Every change of the schema or the formulas keeps an engine sound; the store and the
cache have no part in it.
-/

namespace ComputedFields

open Relation

/-- A formula of a table has a way to what it refers to: a field of that table or, through one of
its link fields, a field of the table that this one leads to. -/
def Reference.Available (schema : Schema) (table : TableId) : Reference → Prop
  | .field f => schema.Owns table f
  | .linked link f =>
    schema.Owns table link ∧ ∃ target, schema.linkTarget? link = some target ∧ schema.Owns target f

theorem Reference.Available.of_append {schema schema' : Schema} {table : TableId}
    {rest : List Field} (hfields : schema'.fields = schema.fields ++ rest) {reference : Reference}
    (h : reference.Available schema table) : reference.Available schema' table := by
  cases reference with
  | field f => exact Schema.Owns.of_append hfields h
  | linked link f =>
    obtain ⟨hlink, target, htarget, hf⟩ := h
    exact ⟨hlink.of_append hfields, target, Schema.linkTarget?_of_append hfields htarget,
      hf.of_append hfields⟩

theorem Reference.Available.mem_fieldIds {schema : Schema} {table : TableId}
    {reference : Reference} (h : reference.Available schema table) (hnamed : schema.Named)
    {edge : Edge} (hedge : edge ∈ reference.edges) : edge.1 ∈ schema.fieldIds := by
  cases reference with
  | field f =>
    rw [List.mem_singleton.mp hedge]
    exact Schema.Owns.mem_fieldIds h hnamed
  | linked link f =>
    obtain ⟨hlink, target, -, hf⟩ := h
    rcases List.mem_cons.mp hedge with rfl | hedge
    · exact hlink.mem_fieldIds hnamed
    · rw [List.mem_singleton.mp hedge]
      exact hf.mem_fieldIds hnamed

namespace Engine

variable {e e' : Engine} {f : FieldId} {formula : Formula}

/-! ## Soundness -/

/-- The graph is that of the formulas, formulas belong to formula fields, and what they follow are
link fields. -/
structure Sound (e : Engine) : Prop where
  graph : e.graph.Consistent
  reads : ∀ f, e.graph.reads.get? f = (e.formula? f).map fun φ => edgesOf φ.references
  computed : ∀ f φ, e.formula? f = some φ → e.schema.isFormula f = true
  links : ∀ f φ link g, e.formula? f = some φ → .linked link g ∈ φ.references →
    ∃ table, e.schema.linkTarget? link = some table

/-- Whether an engine is sound depends on its schema, graph and formulas alone. -/
theorem Sound.of_eq (h : e.Sound) (hschema : e'.schema = e.schema) (hgraph : e'.graph = e.graph)
    (hformulas : e'.formulas = e.formulas) : e'.Sound := by
  obtain ⟨schema, graph, formulas, cache, store, options⟩ := e
  obtain ⟨schema', graph', formulas', cache', store', options'⟩ := e'
  cases hschema
  cases hgraph
  cases hformulas
  exact ⟨h.graph, h.reads, h.computed, h.links⟩

theorem formula?_of_hasFormula (h : e.hasFormula f = true) : ∃ φ, e.formula? f = some φ :=
  Option.isSome_iff_exists.mp h

theorem hasFormula_of_formula? (h : e.formula? f = some formula) : e.hasFormula f = true :=
  Entries.contains_of_get? h

theorem formula?_eq_none (h : e.hasFormula f = false) : e.formula? f = none :=
  Entries.contains_eq_false.mp h

/-- Where the graph holds the edges of the formulas, its formula fields are those with a formula. -/
theorem isFormula_eq_of_reads
    (h : ∀ f, e.graph.reads.get? f = (e.formula? f).map fun φ => edgesOf φ.references)
    (f : FieldId) : e.graph.isFormula f = e.hasFormula f := by
  rw [DependencyGraph.isFormula, Entries.contains, h, hasFormula, Entries.contains, formula?,
    Option.isSome_map]

theorem Sound.isFormula_eq (h : e.Sound) (f : FieldId) : e.graph.isFormula f = e.hasFormula f :=
  isFormula_eq_of_reads h.reads f

theorem Sound.edgesFrom_eq (h : e.Sound) (hf : e.formula? f = some formula) :
    e.graph.edgesFrom f = edgesOf formula.references := by
  rw [DependencyGraph.edgesFrom, h.reads, hf]
  rfl

/-- There are as many registered formulas as fields with reads. -/
theorem Sound.size_eq (h : e.Sound) : e.formulas.size = e.graph.reads.size := by
  have hperm : e.formulas.keys.Perm e.graph.reads.keys := by
    refine (List.perm_ext_iff_of_nodup e.formulas.nodup e.graph.reads.nodup).mpr fun f => ?_
    rw [← Entries.keys, ← Entries.keys, Entries.mem_keys, Entries.mem_keys]
    exact iff_of_eq (congrArg (· = true) (h.isFormula_eq f).symm)
  have hlength := hperm.length_eq
  rwa [Entries.keys, Entries.keys, List.length_map, List.length_map] at hlength

/-- A link that a formula follows has no formula itself. -/
theorem Sound.hasFormula_link (h : e.Sound) (hf : e.formula? f = some formula)
    {link g : FieldId} (hmem : .linked link g ∈ formula.references) :
    e.hasFormula link = false := by
  obtain ⟨table, htable⟩ := h.links f formula link g hf hmem
  by_contra hlink
  obtain ⟨φ, hφ⟩ := formula?_of_hasFormula ((Bool.not_eq_false _).mp hlink)
  have hformula := h.computed link φ hφ
  rw [Schema.isFormula_of_linkTarget? htable] at hformula
  cases hformula

/-! ## Changes -/

/-- A new engine has no reads. -/
theorem reads_new (schema : Schema) (store : Store) (options : EngineOptions) (f : FieldId) :
    (Engine.new schema store options).graph.reads.get? f = none := by
  show ((schema.fieldIds.foldl DependencyGraph.register .empty).reads).get? f = none
  rw [DependencyGraph.reads_foldl_register]
  rfl

theorem Sound.new (schema : Schema) (store : Store) (options : EngineOptions) :
    (Engine.new schema store options).Sound := by
  have hgraph := DependencyGraph.Consistent.empty.foldl_register schema.fieldIds
  refine ⟨hgraph, reads_new schema store options, fun f φ hφ => ?_, fun f φ link g hφ => ?_⟩
  · cases hφ
  · cases hφ

theorem Sound.addField (h : e.Sound) {table : TableId} {name : String} {kind : FieldKind}
    (hok : e.addField table name kind = .ok (e', f)) : e'.Sound := by
  obtain ⟨added, hadd, heq⟩ := ok_of_map hok
  cases heq
  have hfields := congrArg Schema.fields (Schema.addField_ok hadd).1
  refine ⟨h.graph.register _, ?_, ?_, ?_⟩
  · intro x
    rw [DependencyGraph.reads_register]
    exact h.reads x
  · intro x φ hφ
    exact Schema.isFormula_of_append hfields (h.computed x φ hφ)
  · intro x φ link g hφ hmem
    obtain ⟨target, htarget⟩ := h.links x φ link g hφ hmem
    exact ⟨target, Schema.linkTarget?_of_append hfields htarget⟩

theorem owns_of_checkOwner {schema : Schema} {table : TableId} {u : Unit}
    (h : checkOwner schema f table = .ok u) : schema.Owns table f := by
  rw [checkOwner] at h
  split at h
  · assumption
  · cases h

theorem available_of_checkReference {schema : Schema} {table : TableId} {reference : Reference}
    {u : Unit} (h : checkReference schema table reference = .ok u) :
    reference.Available schema table := by
  cases reference with
  | field f => exact owns_of_checkOwner h
  | linked link f =>
    obtain ⟨_, hlink, htarget⟩ := ok_of_bind h
    cases htable : schema.linkTarget? link with
    | some target =>
      rw [htable] at htarget
      exact ⟨owns_of_checkOwner hlink, target, htable, owns_of_checkOwner htarget⟩
    | none =>
      rw [htable] at htarget
      cases htarget

theorem available_of_checkReferences {schema : Schema} {table : TableId}
    {references : List Reference} {u : Unit} (h : checkReferences schema table references = .ok u) :
    ∀ reference ∈ references, reference.Available schema table := by
  induction references with
  | nil => simp
  | cons r rest ih =>
    obtain ⟨_, hr, hrest⟩ := ok_of_bind h
    exact List.forall_mem_cons.mpr ⟨available_of_checkReference hr, ih hrest⟩

theorem formulaTable?_some {table : TableId} (h : e.formulaTable? f = some table) :
    ∃ own, e.schema.field? f = some own ∧ own.kind = .formula ∧ own.table = table := by
  rw [formulaTable?] at h
  split at h
  · rename_i hformula
    obtain ⟨own, hown, hkind⟩ := Schema.exists_of_isFormula hformula
    rw [hown] at h
    exact ⟨own, hown, hkind, Option.some.inj h⟩
  · cases h

/-- What registering a formula does. -/
theorem register_ok {diff : DependencyDiff} (h : e.register f formula = .ok (e', diff)) :
    ∃ own graph, e.schema.field? f = some own ∧ own.kind = .formula ∧
      (∀ reference ∈ formula.references, reference.Available e.schema own.table) ∧
      e.graph.setReads f formula.references = .ok (graph, diff) ∧
      e' = { e with
        graph
        formulas := e.formulas.set f formula
        cache := e.dropStale graph f } := by
  rw [register] at h
  cases htable : e.formulaTable? f with
  | none =>
    rw [htable] at h
    cases h
  | some table =>
    rw [htable] at h
    obtain ⟨u, hcheck, h⟩ := ok_of_bind h
    obtain ⟨⟨graph, diff'⟩, hset, h⟩ := ok_of_bind h
    cases h
    obtain ⟨own, hown, hkind, rfl⟩ := formulaTable?_some htable
    exact ⟨own, graph, hown, hkind, available_of_checkReferences hcheck, hset, rfl⟩

/-- Registering gives the field the new formula and leaves all others theirs. -/
theorem formula?_of_register {diff : DependencyDiff} (h : e.register f formula = .ok (e', diff))
    (x : FieldId) : e'.formula? x = if x = f then some formula else e.formula? x := by
  obtain ⟨own, graph, -, -, -, -, rfl⟩ := register_ok h
  exact Entries.get?_set _ _ _ _

theorem reads_of_register {diff : DependencyDiff} (h : e.register f formula = .ok (e', diff))
    (x : FieldId) : e'.graph.reads.get? x =
      if x = f then some (edgesOf formula.references) else e.graph.reads.get? x := by
  obtain ⟨own, graph, -, -, -, hset, rfl⟩ := register_ok h
  obtain ⟨-, hreads, -⟩ := DependencyGraph.setReads_ok hset
  show graph.reads.get? x = _
  rw [hreads, Entries.get?_set]

theorem Sound.register (h : e.Sound) {diff : DependencyDiff}
    (hok : e.register f formula = .ok (e', diff)) : e'.Sound := by
  have hget := formula?_of_register hok
  have hreads := reads_of_register hok
  obtain ⟨own, graph, hown, hkind, havailable, hset, rfl⟩ := register_ok hok
  refine ⟨h.graph.setReads hset, ?_, ?_, ?_⟩
  · intro x
    rw [hreads, hget, h.reads]
    split <;> rfl
  · intro x φ hφ
    rw [hget] at hφ
    split at hφ
    · rename_i hx
      rw [hx]
      exact Schema.isFormula_of_field? hown hkind
    · exact h.computed x φ hφ
  · intro x φ link g hφ hmem
    rw [hget] at hφ
    split at hφ
    · cases hφ
      obtain ⟨-, target, htarget, -⟩ := havailable _ hmem
      exact ⟨target, htarget⟩
    · exact h.links x φ link g hφ hmem

/-- Defining a formula is registering what its source compiles to. -/
theorem define_ok {source : String} {diff : DependencyDiff}
    (h : e.define f source = .ok (e', diff)) :
    ∃ formula, e.register f formula = .ok (e', diff) := by
  rw [define] at h
  split at h
  · cases h
  · rename_i field hfield
    obtain ⟨formula, -, hregister⟩ := ok_of_bind h
    exact ⟨formula, hregister⟩

theorem remove_ok {readers : List FieldId} (h : e.remove f = .ok (e', readers)) :
    e' = { e with
      graph := (e.graph.removeReads f).1
      formulas := e.formulas.erase f
      cache := e.dropStale e.graph f } := by
  rw [remove] at h
  split at h
  · cases h
    rfl
  · cases h

/-- Removing takes the field's formula away and leaves all others theirs. -/
theorem formula?_of_remove {readers : List FieldId} (h : e.remove f = .ok (e', readers))
    (x : FieldId) : e'.formula? x = if x = f then none else e.formula? x := by
  obtain rfl := remove_ok h
  exact Entries.get?_erase _ _ _

theorem reads_of_remove {readers : List FieldId} (h : e.remove f = .ok (e', readers))
    (x : FieldId) : e'.graph.reads.get? x = if x = f then none else e.graph.reads.get? x := by
  obtain rfl := remove_ok h
  exact Entries.get?_erase _ _ _

/-- A formula that is there after a removal was there before it. -/
theorem formula?_before_remove {readers : List FieldId} (h : e.remove f = .ok (e', readers))
    {x : FieldId} {φ : Formula} (hφ : e'.formula? x = some φ) : e.formula? x = some φ := by
  rw [formula?_of_remove h] at hφ
  split at hφ
  · cases hφ
  · exact hφ

theorem Sound.remove (h : e.Sound) {readers : List FieldId}
    (hok : e.remove f = .ok (e', readers)) : e'.Sound := by
  have hget := formula?_of_remove hok
  have hreads := reads_of_remove hok
  have hbefore := fun x φ => formula?_before_remove (x := x) (φ := φ) hok
  obtain rfl := remove_ok hok
  refine ⟨h.graph.removeReads f, ?_, ?_, ?_⟩
  · intro x
    rw [hreads, hget, h.reads]
    split <;> rfl
  · intro x φ hφ
    exact h.computed x φ (hbefore x φ hφ)
  · intro x φ link g hφ hmem
    exact h.links x φ link g (hbefore x φ hφ) hmem

/-! ## Stale values -/

/-- What is left in the cache is what was there of fields other than the changed one, which do not
read it. -/
theorem get?_dropStale {graph : DependencyGraph} (hg : graph.Mirrored) {c : Cell}
    {entry : CachedValue} : (e.dropStale graph f).get? c.1 c.2 = some entry ↔
      (c.2 ≠ f ∧ ¬ TransGen graph.Reads c.2 f) ∧ e.cache.get? c.1 c.2 = some entry := by
  have hkeep : (!(f :: graph.transitiveDependents [f]).contains c.2) = true ↔
      c.2 ≠ f ∧ ¬ TransGen graph.Reads c.2 f := by
    simp [DependencyGraph.mem_transitiveDependents hg]
  have hget := Entries.get?_filterKeys e.cache.entries
    (fun cell => !(f :: graph.transitiveDependents [f]).contains cell.2) c
  have hdrop : (e.dropStale graph f).get? c.1 c.2 = _ := hget
  rw [hdrop, ← hkeep, Option.ite_none_right_eq_some]
  rfl

end Engine

end ComputedFields
