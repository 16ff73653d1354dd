import ComputedFields.Proofs.Engine.Runs
import ComputedFields.Proofs.Graph.Alike
import Mathlib

/-!
# Histories

Whatever happens to an engine, in any order and whether calls succeed or fail, its schema, its
formulas, its graph and its cache fit together. What the graph shows is settled by the schema and
the formulas that there are in the end, not by the way to them.
-/

namespace ComputedFields

namespace Engine

variable {e e' : Engine} {f : FieldId}

/-! ## Events -/

/-- What can happen to an engine: an operation, the registration of a formula from anywhere, a
change of the store behind its back, and the report of a change, whether there was one or not. -/
inductive Event where
  | operate (op : Operation)
  | register (f : FieldId) (formula : Formula)
  | store (store : Store)
  | changed (record : RecordId) (f : FieldId) (value : Value)

/-- The engine after an event; a call that fails changes nothing. -/
def happen (e : Engine) : Event → Engine
  | .operate op => e.perform op
  | .register f formula => e.after (·.1) (e.register f formula)
  | .store store => { e with store }
  | .changed record f value => e.after (·.2) (e.changed record f value)

/-- What events make of a new engine, the latest event first. -/
def history (schema : Schema) (store : Store) (options : EngineOptions) : List Event → Engine
  | [] => new schema store options
  | latest :: earlier => (history schema store options earlier).happen latest

/-- What holds after an event if it holds before and the changes that events make keep it. -/
theorem happen_cases {P : Engine → Prop} (hsame : P e)
    (hadd : ∀ table name kind e' f, e.addField table name kind = .ok (e', f) → P e')
    (hregister : ∀ f φ e' diff, e.register f φ = .ok (e', diff) → P e')
    (hremove : ∀ f e' readers, e.remove f = .ok (e', readers) → P e')
    (hcache : ∀ e', Recached e e' → P e') (hstore : ∀ store, P { e with store })
    (event : Event) : P (e.happen event) := by
  cases event with
  | operate op =>
    exact perform_cases hsame hadd hregister hremove hcache op
  | register f formula => exact after_cases hsame fun result hok => hregister _ _ _ _ hok
  | store store => exact hstore store
  | changed record f value =>
    exact after_cases hsame fun result hok => hcache _ (recached_changed hok)

/-! ## What fits together -/

/-- The graph is one that edits make and holds the edges of the registered formulas and no others,
formulas belong to formula fields, whose tables have a way to all that they refer to, and cached
values are of fields with formulas. -/
structure Wired (e : Engine) : Prop where
  graph : e.graph.WellFormed
  reads : ∀ f, e.graph.reads.get? f = (e.formula? f).map fun φ => edgesOf φ.references
  owned : ∀ f φ, e.formula? f = some φ → ∃ own, e.schema.field? f = some own ∧
    own.kind = .formula ∧ ∀ reference ∈ φ.references, reference.Available e.schema own.table
  cached : ∀ (c : Cell) entry, e.cache.get? c.1 c.2 = some entry → e.hasFormula c.2 = true

theorem Wired.new (schema : Schema) (store : Store) (options : EngineOptions) :
    (Engine.new schema store options).Wired where
  graph := DependencyGraph.WellFormed.empty.foldl_register schema.fieldIds
  reads := reads_new schema store options
  owned := by
    intro f φ hφ
    cases hφ
  cached := by
    intro c entry hentry
    cases hentry

theorem Wired.addField (h : e.Wired) {table : TableId} {name : String} {kind : FieldKind}
    (hok : e.addField table name kind = .ok (e', f)) : e'.Wired := by
  obtain ⟨added, hadd, heq⟩ := ok_of_map hok
  cases heq
  have hfields := congrArg Schema.fields (Schema.addField_ok hadd).1
  refine ⟨h.graph.register _, ?_, ?_, h.cached⟩
  · intro x
    rw [DependencyGraph.reads_register]
    exact h.reads x
  · intro x φ hφ
    obtain ⟨own, hown, hkind, havailable⟩ := h.owned x φ hφ
    exact ⟨own, Schema.field?_of_append hfields hown, hkind,
      fun reference hmem => (havailable reference hmem).of_append hfields⟩

/-- What is left of the cache is of fields with formulas, other than the changed one. -/
theorem Wired.cached_dropStale (h : e.Wired) {graph : DependencyGraph} (hg : graph.Mirrored)
    {c : Cell} {entry : CachedValue} (hentry : (e.dropStale graph f).get? c.1 c.2 = some entry) :
    c.2 ≠ f ∧ e.hasFormula c.2 = true := by
  obtain ⟨⟨hne, -⟩, hold⟩ := (get?_dropStale hg).mp hentry
  exact ⟨hne, h.cached c entry hold⟩

theorem Wired.register (h : e.Wired) {φ : Formula} {diff : DependencyDiff}
    (hok : e.register f φ = .ok (e', diff)) : e'.Wired := by
  have hget := formula?_of_register hok
  have hreads := reads_of_register hok
  obtain ⟨own, graph, hown, hkind, havailable, hset, rfl⟩ := register_ok hok
  refine ⟨h.graph.setReads hset, ?_, ?_, ?_⟩
  · intro x
    rw [hreads, hget, h.reads]
    split <;> rfl
  · intro x φ' hφ'
    rw [hget] at hφ'
    split at hφ'
    · rename_i hx
      cases hφ'
      exact ⟨own, hx ▸ hown, hkind, havailable⟩
    · exact h.owned x φ' hφ'
  · intro c entry hentry
    obtain ⟨hne, hform⟩ := h.cached_dropStale (h.graph.setReads hset).mirrored hentry
    exact (congrArg Option.isSome ((hget c.2).trans (if_neg hne))).trans hform

theorem Wired.remove (h : e.Wired) {readers : List FieldId}
    (hok : e.remove f = .ok (e', readers)) : e'.Wired := by
  have hget := formula?_of_remove hok
  have hreads := reads_of_remove hok
  have hbefore := fun x φ => formula?_before_remove (x := x) (φ := φ) hok
  obtain rfl := remove_ok hok
  refine ⟨h.graph.removeReads f, ?_, fun x φ hφ => h.owned x φ (hbefore x φ hφ), ?_⟩
  · intro x
    rw [hreads, hget, h.reads]
    split <;> rfl
  · intro c entry hentry
    obtain ⟨hne, hform⟩ := h.cached_dropStale h.graph.mirrored hentry
    exact (congrArg Option.isSome ((hget c.2).trans (if_neg hne))).trans hform

theorem Wired.recached (h : e.Wired) (hcache : Recached e e') : e'.Wired := by
  obtain ⟨⟨cache, rfl⟩, hold⟩ := hcache
  refine ⟨h.graph, h.reads, h.owned, fun c entry hentry => ?_⟩
  by_contra hplain
  have hplain : e.hasFormula c.2 = false := (Bool.not_eq_true _).mp hplain
  have hform := h.cached c entry (hold c entry hplain hentry)
  rw [hplain] at hform
  cases hform

theorem Wired.happen (h : e.Wired) (event : Event) : (e.happen event).Wired :=
  happen_cases h (fun _ _ _ _ _ hok => h.addField hok) (fun _ _ _ _ hok => h.register hok)
    (fun _ _ _ hok => h.remove hok) (fun _ hcache => h.recached hcache)
    (fun _ => ⟨h.graph, h.reads, h.owned, h.cached⟩) event

theorem history_wired (schema : Schema) (store : Store) (options : EngineOptions)
    (events : List Event) : (history schema store options events).Wired := by
  induction events with
  | nil => exact Wired.new schema store options
  | cons event events ih => exact ih.happen event

theorem Wired.sound (h : e.Wired) : e.Sound where
  graph := h.graph.toConsistent
  reads := h.reads
  computed := by
    intro f φ hφ
    obtain ⟨own, hown, hkind, -⟩ := h.owned f φ hφ
    exact Schema.isFormula_of_field? hown hkind
  links := by
    intro f φ link g hφ hmem
    obtain ⟨own, -, -, havailable⟩ := h.owned f φ hφ
    obtain ⟨-, target, htarget, -⟩ := havailable _ hmem
    exact ⟨target, htarget⟩

/-! ## The order of fields -/

/-- The graph lists the fields of the schema in the order in which they were added. -/
structure Enrolled (e : Engine) : Prop where
  named : e.schema.Named
  order : e.graph.order = e.schema.fieldIds

theorem Enrolled.new {schema : Schema} (h : schema.Named) (store : Store)
    (options : EngineOptions) : (Engine.new schema store options).Enrolled where
  named := h
  order := DependencyGraph.order_foldl_register (g := .empty) h.nodup_fieldIds

theorem Enrolled.addField (h : e.Enrolled) {table : TableId} {name : String} {kind : FieldKind}
    (hok : e.addField table name kind = .ok (e', f)) : e'.Enrolled := by
  obtain ⟨⟨schema, x⟩, hadd, heq⟩ := ok_of_map hok
  cases heq
  have hids := Schema.fieldIds_addField hadd
  have hnamed := h.named.addField hadd
  have hnew : f ∉ e.graph.order := by
    rw [h.order]
    intro hf
    have hnodup := hnamed.nodup_fieldIds
    rw [hids] at hnodup
    exact (List.nodup_append.mp hnodup).2.2 f hf f (by simp) rfl
  refine ⟨hnamed, ?_⟩
  show (e.graph.register f).order = schema.fieldIds
  rw [DependencyGraph.order_register, if_neg hnew, h.order, hids]

/-- Registering a formula reads fields of the schema only, so none is new to the graph. -/
theorem Enrolled.register (h : e.Enrolled) {φ : Formula} {diff : DependencyDiff}
    (hok : e.register f φ = .ok (e', diff)) : e'.Enrolled := by
  obtain ⟨own, graph, hown, -, havailable, hset, rfl⟩ := register_ok hok
  refine ⟨h.named, ?_⟩
  show graph.order = e.schema.fieldIds
  rw [← h.order]
  refine DependencyGraph.order_setReads_of_mem hset ?_ fun edge hedge => ?_
  · rw [h.order]
    exact h.named.mem_fieldIds hown
  · rw [h.order]
    obtain ⟨reference, hmem, hedge⟩ := mem_edgesOf.mp hedge
    exact (havailable reference hmem).mem_fieldIds h.named hedge

theorem Enrolled.remove (h : e.Enrolled) {readers : List FieldId}
    (hok : e.remove f = .ok (e', readers)) : e'.Enrolled := by
  obtain rfl := remove_ok hok
  exact ⟨h.named, h.order⟩

theorem Enrolled.happen (h : e.Enrolled) (event : Event) : (e.happen event).Enrolled := by
  refine happen_cases h (fun _ _ _ _ _ hok => h.addField hok) (fun _ _ _ _ hok => h.register hok)
    (fun _ _ _ hok => h.remove hok) ?_ (fun _ => ⟨h.named, h.order⟩) event
  rintro e' ⟨⟨cache, rfl⟩, -⟩
  exact ⟨h.named, h.order⟩

theorem history_enrolled {schema : Schema} (h : schema.Named) (store : Store)
    (options : EngineOptions) (events : List Event) :
    (history schema store options events).Enrolled := by
  induction events with
  | nil => exact Enrolled.new h store options
  | cons event events ih => exact ih.happen event

/-! ## What does not depend on the history -/

/-- Two engines show the same reads and compute fields in the same orders. -/
structure SameViews (e e' : Engine) : Prop where
  precedents : ∀ f, e'.graph.precedents f = e.graph.precedents f
  dependents : ∀ f, e'.graph.dependents f = e.graph.dependents f
  tableFormulas : ∀ table, e'.tableFormulas table = e.tableFormulas table
  recalculationOrder : ∀ changed,
    e'.graph.recalculationOrder changed = e.graph.recalculationOrder changed

theorem Wired.alike (h : e.Wired) (h' : e'.Wired) (ho : e.Enrolled) (ho' : e'.Enrolled)
    (hschema : e'.schema = e.schema) (hformulas : ∀ f, e'.formula? f = e.formula? f) :
    DependencyGraph.Alike e.graph e'.graph where
  left := h.graph
  right := h'.graph
  order := by rw [ho.order, ho'.order, hschema]
  reads := by
    intro f
    rw [h.reads, h'.reads, hformulas]

theorem Wired.sameViews (h : e.Wired) (h' : e'.Wired) (ho : e.Enrolled) (ho' : e'.Enrolled)
    (hschema : e'.schema = e.schema) (hformulas : ∀ f, e'.formula? f = e.formula? f) :
    SameViews e e' := by
  have halike := h.alike h' ho ho' hschema hformulas
  have hhas : e'.hasFormula = e.hasFormula := by
    funext f
    exact congrArg Option.isSome (hformulas f)
  refine ⟨?_, ?_, ?_, ?_⟩
  · exact congrFun halike.precedents_eq
  · exact congrFun halike.dependents_eq
  · intro table
    rw [tableFormulas, tableFormulas, halike.schedule_eq, hschema, hhas]
  · exact congrFun halike.recalculationOrder_eq

/-- After any events exactly the fields with a registered formula are formula fields of the graph.
Each is a formula field of the schema, the graph holds exactly the edges of its references, and its
table has a way to all of these. Cached values are of fields with formulas. And two histories that
end with the same schema and the same formulas end with the same views of the graph. -/
theorem history_canonical {schema schema' : Schema} (hbuilt : schema.Built)
    (hbuilt' : schema'.Built) (store store' : Store) (options options' : EngineOptions)
    (events events' : List Event) :
    let e := history schema store options events
    let e' := history schema' store' options' events'
    (∀ f, e.graph.isFormula f = e.hasFormula f) ∧
    (∀ f φ, e.formula? f = some φ →
      (e.graph.precedents f).Perm (edgesOf φ.references) ∧
      ∃ own, e.schema.field? f = some own ∧ own.kind = .formula ∧
        ∀ reference ∈ φ.references, reference.Available e.schema own.table) ∧
    (∀ record f entry, e.cache.get? record f = some entry → e.hasFormula f = true) ∧
    (e'.schema = e.schema → (∀ f, e'.formula? f = e.formula? f) → SameViews e e') := by
  intro e e'
  have h : e.Wired := history_wired schema store options events
  have h' : e'.Wired := history_wired schema' store' options' events'
  refine ⟨isFormula_eq_of_reads h.reads, fun f φ hφ => ⟨?_, h.owned f φ hφ⟩, ?_, ?_⟩
  · rw [DependencyGraph.precedents, DependencyGraph.edgesFrom, h.reads, hφ]
    exact Ordered.perm_sort _
  · exact fun record f entry hentry => h.cached (record, f) entry hentry
  · exact h.sameViews h' (history_enrolled hbuilt.named store options events)
      (history_enrolled hbuilt'.named store' options' events')

theorem built_priceSchema : priceSchema.Built := by
  have hprice : Schema.addField ⟨["items"], []⟩ ⟨0⟩ "price" .plain =
      .ok (⟨["items"], priceSchema.fields.take 1⟩, ⟨0⟩) := by rfl
  have hlabel : Schema.addField ⟨["items"], priceSchema.fields.take 1⟩ ⟨0⟩ "label" .formula =
      .ok (priceSchema, ⟨1⟩) := by rfl
  exact ((Schema.Built.empty.addTable "items").addField hprice).addField hlabel

/-- A formula that is defined at once. -/
def labelled : List Event := [.operate (.define ⟨1⟩ labelSource)]

/-- Records with a price. -/
def tenStore : Store := Store.empty.setValue ⟨0⟩ ⟨0⟩ (.text "ten")

/-- The same formula, defined after another one was removed and a third one refused, over a store
that changes. -/
def relabelled : List Event :=
  [.operate (.define ⟨1⟩ labelSource), .operate (.remove ⟨1⟩), .operate (.define ⟨1⟩ "{label}"),
    .store tenStore, .operate (.define ⟨1⟩ "{price}")]

theorem sameViews_relabelled :
    (history priceSchema .empty newYear labelled).graph.dependents ⟨0⟩ = [(⟨1⟩, .direct)] ∧
      SameViews (history priceSchema .empty newYear labelled)
        (history priceSchema .empty newYear relabelled) := by
  have hschema : (history priceSchema .empty newYear relabelled).schema =
      (history priceSchema .empty newYear labelled).schema := by cbv
  have hformulas : (history priceSchema .empty newYear relabelled).formulas.toList =
      (history priceSchema .empty newYear labelled).formulas.toList := by cbv
  obtain ⟨-, -, -, hviews⟩ := history_canonical built_priceSchema built_priceSchema .empty .empty
    newYear newYear labelled relabelled
  exact ⟨by cbv, hviews hschema fun f => congrArg (Entries.lookup f) hformulas⟩

end Engine

end ComputedFields
