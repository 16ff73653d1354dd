import ComputedFields.Proofs.Engine.Runs
import Mathlib

/-!
# The cache is right

As long as every change of the store is reported, all that the cache holds is right after every
operation, so a read gives what a computation from scratch would give.
-/

namespace ComputedFields

open Relation

namespace Engine

variable {e e' : Engine} {den : Cell → Value} {mode : ReadMode} {s' : Session} {f : FieldId}
  {record : RecordId}

/-- A sound engine whose cache holds formula cells only, each with its meaning. -/
structure Coherent (e : Engine) : Prop where
  sound : e.Sound
  formulas : ∀ (c : Cell) entry, e.cache.get? c.1 c.2 = some entry → e.hasFormula c.2 = true
  values : ∀ (c : Cell) entry, e.cache.get? c.1 c.2 = some entry → entry.value = e.denote c

theorem Coherent.new (schema : Schema) (store : Store) (options : EngineOptions) :
    (Engine.new schema store options).Coherent where
  sound := Sound.new schema store options
  formulas := by
    intro c entry hentry
    cases hentry
  values := by
    intro c entry hentry
    cases hentry

/-! ## Keeping entries -/

/-- An edit that keeps only entries of cells whose meaning it leaves alone: those of a set which no
read leads out of, and where formulas and stored values stay. -/
theorem Coherent.keep (h : e.Coherent) (hs' : e'.Sound) {P : Cell → Prop} (hclosed : e.Closed P)
    (hformula : ∀ c, P c → e'.formula? c.2 = e.formula? c.2)
    (hstored : ∀ c, P c → e.hasFormula c.2 = false →
      e'.store.fieldValue c.1 c.2 = e.store.fieldValue c.1 c.2)
    (hlinks : ∀ c, P c → e.hasFormula c.2 = false →
      e'.store.linkedRecords c.1 c.2 = e.store.linkedRecords c.1 c.2)
    (hnow : e'.options.now = e.options.now)
    (hcache : ∀ (c : Cell) entry, e'.cache.get? c.1 c.2 = some entry →
      P c ∧ e.cache.get? c.1 c.2 = some entry) : e'.Coherent := by
  refine ⟨hs', ?_, ?_⟩
  · intro c entry hentry
    obtain ⟨hc, hold⟩ := hcache c entry hentry
    obtain ⟨φ, hφ⟩ := formula?_of_hasFormula (h.formulas c entry hold)
    exact hasFormula_of_formula? ((hformula c hc).trans hφ)
  · intro c entry hentry
    obtain ⟨hc, hold⟩ := hcache c entry hentry
    rw [h.values c entry hold]
    exact (h.sound.denotes_congr hclosed hformula hstored hlinks hnow h.sound.denotes
      hs'.denotes c hc).symm

/-- Dropping entries keeps the rest right. -/
theorem Coherent.drop (h : e.Coherent) {cache : ValueCache}
    (hcache : ∀ (c : Cell) entry, cache.get? c.1 c.2 = some entry →
      e.cache.get? c.1 c.2 = some entry) :
    Coherent { e with cache } :=
  h.keep (P := fun _ => True) (h.sound.of_eq rfl rfl rfl) (fun _ _ _ _ => trivial)
    (fun _ _ => rfl) (fun _ _ _ => rfl) (fun _ _ _ => rfl) rfl
    fun c entry hentry => ⟨trivial, hcache c entry hentry⟩

/-- The cells of fields that a field is not read by, directly or through others, and that are not
this field itself, read only such cells. -/
theorem Sound.closed_unrelated (hs : e.Sound) (f : FieldId) {graph : DependencyGraph}
    (hgraph : ∀ x, x ≠ f → ∀ p, e.graph.Reads x p → graph.Reads x p) :
    e.Closed fun c => c.2 ≠ f ∧ ¬ TransGen graph.Reads c.2 f := by
  rintro a b ⟨hne, hnot⟩ hread
  have hab := hgraph a.2 hne b.2 (hs.reads_fields hread)
  refine ⟨?_, fun hb => hnot (.head hab hb)⟩
  intro hb
  rw [hb] at hab
  exact hnot (.single hab)

/-! ## Edits -/

theorem Coherent.addField (h : e.Coherent) {table : TableId} {name : String} {kind : FieldKind}
    (hok : e.addField table name kind = .ok (e', f)) : e'.Coherent := by
  have hs' := h.sound.addField hok
  obtain ⟨added, -, heq⟩ := ok_of_map hok
  cases heq
  exact h.keep (P := fun _ => True) hs' (fun _ _ _ _ => trivial) (fun _ _ => rfl)
    (fun _ _ _ => rfl) (fun _ _ _ => rfl) rfl fun c entry hentry => ⟨trivial, hentry⟩

theorem Coherent.register (h : e.Coherent) {formula : Formula} {diff : DependencyDiff}
    (hok : e.register f formula = .ok (e', diff)) : e'.Coherent := by
  have hs' := h.sound.register hok
  obtain ⟨own, graph, -, -, -, hset, rfl⟩ := register_ok hok
  obtain ⟨-, hreads, -⟩ := DependencyGraph.setReads_ok hset
  -- the entries that stay are of fields that read what they read before
  have hfrom := DependencyGraph.edgesFrom_of_reads_set hreads
  have hgraph : ∀ x, x ≠ f → ∀ p, e.graph.Reads x p → graph.Reads x p := by
    rintro x hx p ⟨kind, hedge⟩
    refine ⟨kind, ?_⟩
    rw [hfrom, if_neg hx]
    exact hedge
  refine h.keep hs' (h.sound.closed_unrelated f hgraph) ?_ (fun _ _ _ => rfl) (fun _ _ _ => rfl)
    rfl ?_
  · rintro c ⟨hc, -⟩
    exact (Entries.get?_set _ _ _ _).trans (if_neg hc)
  · exact fun c entry hentry => (get?_dropStale (h.sound.graph.setReads hset).mirrored).mp hentry

theorem Coherent.remove (h : e.Coherent) {readers : List FieldId}
    (hok : e.remove f = .ok (e', readers)) : e'.Coherent := by
  have hs' := h.sound.remove hok
  obtain rfl := remove_ok hok
  have hunrelated := h.sound.closed_unrelated f fun _ _ _ hp => hp
  refine h.keep hs' hunrelated ?_ (fun _ _ _ => rfl) (fun _ _ _ => rfl) rfl ?_
  · rintro c ⟨hc, -⟩
    exact (Entries.get?_erase _ _ _).trans (if_neg hc)
  · exact fun c entry hentry => (get?_dropStale h.sound.graph.mirrored).mp hentry

/-! ## Sessions -/

/-- A session starts from what is right. -/
theorem Coherent.knows (h : e.Coherent) :
    Knows e e.denote mode (fun _ => True) ⟨.empty, e.cache⟩ := by
  refine ⟨?_, ?_, ?_⟩
  · intro c _ v hv
    cases hv
  · intro c _ _ v hv
    rcases of_known? hv with hv | ⟨entry, hentry, rfl⟩
    · cases hv
    · exact h.values c entry hentry
  · intro c hplain _
    rw [h.sound.denotes c, valueUnder_of_not_hasFormula hplain]

/-- A cache of formula cells with their meanings is right for the engine. -/
theorem Sound.coherent (hs : e.Sound) {cache : ValueCache}
    (hformulas : ∀ (c : Cell) entry, cache.get? c.1 c.2 = some entry → e.hasFormula c.2 = true)
    (hvalues : ∀ (c : Cell) entry, cache.get? c.1 c.2 = some entry → entry.value = e.denote c) :
    Coherent { e with cache } := by
  have hs' : Sound { e with cache } := hs.of_eq rfl rfl rfl
  have hden : Denotes { e with cache } e.denote := hs.denotes
  refine ⟨hs', hformulas, ?_⟩
  rw [hs'.denotes_unique hden hs'.denotes]
  exact hvalues

/-- A session that computes what it touches keeps the cache right. -/
theorem Coherent.session (h : e.Coherent) {allowed : Cell → Prop}
    (hg : Grows e e.denote mode allowed ⟨.empty, e.cache⟩ s') :
    Coherent { e with cache := s'.cache } := by
  refine h.sound.coherent ?_ ?_
  · intro c entry hentry
    rcases hg.of_entry hentry with hold | ⟨hform, -⟩
    · exact h.formulas c entry hold
    · exact hform
  · intro c entry hentry
    rcases hg.of_entry hentry with hold | ⟨-, hvalue⟩
    · exact h.values c entry hold
    · exact hvalue

/-- A session of reads gives what is meant and keeps the cache right. -/
theorem Coherent.inSession (h : e.Coherent) {α : Type} {x : StateM Session α} {y : Id α}
    (hx : Gives e e.denote mode (fun _ => True) α x y) :
    (e.inSession x).1 = y ∧ (e.inSession x).2.Coherent := by
  obtain ⟨hvalue, hg⟩ := hx ⟨.empty, e.cache⟩ (h.knows.grounded h.sound.denotes.explains)
  exact ⟨hvalue, h.session hg⟩

theorem Coherent.read (h : e.Coherent) :
    (e.read record f).1 = e.denote (record, f) ∧ (e.read record f).2.Coherent :=
  h.inSession (h.sound.valueOf_gives (closed_all e) trivial)

theorem Coherent.readFresh (h : e.Coherent) :
    (e.readFresh record f).1 = e.denote (record, f) ∧ (e.readFresh record f).2.Coherent :=
  h.inSession (h.sound.valueOf_gives (closed_all e) trivial)

theorem Coherent.evaluate (h : e.Coherent) (formula : Formula) :
    (e.evaluate formula record).2.Coherent :=
  (h.inSession (h.sound.compute_gives (closed_all e) fun _ _ _ _ => trivial)).2

/-! ## Recomputation -/

/-- The formula fields of a table come in an order in which none reads a later one. -/
theorem Sound.tableFormulas_ok (hs : e.Sound) {table : TableId} {fields : List FieldId}
    (h : e.tableFormulas table = .ok fields) :
    (∀ f ∈ fields, e.hasFormula f = true) ∧ fields.Pairwise fun a b => ¬ e.graph.Reads a b := by
  obtain ⟨-, hmem, hpair⟩ := DependencyGraph.schedule_mem hs.graph h
  refine ⟨fun f hf => ?_, hpair⟩
  exact (List.mem_filter.mp ((hmem f).mp hf)).2

theorem Coherent.recomputeFields (h : e.Coherent) {fields : List FieldId}
    (hform : ∀ f ∈ fields, e.hasFormula f = true)
    (hpair : fields.Pairwise fun a b => ¬ e.graph.Reads a b) :
    (e.recomputeFields fields record).2.Coherent := by
  have hcells : (fields.map fun f => (record, f)).Pairwise fun a b => ¬ e.Reads a b :=
    List.pairwise_map.mpr (hpair.imp fun hab hread => hab (h.sound.reads_fields hread))
  have hforms : ∀ a ∈ fields.map fun f => (record, f), e.hasFormula a.2 = true := by
    intro a ha
    obtain ⟨f, hf, rfl⟩ := List.mem_map.mp ha
    exact hform f hf
  obtain ⟨-, hg, -⟩ := h.sound.run_gives h.sound.denotes.explains (closed_all e) hforms
    (fun _ _ _ _ => .inl trivial) hcells h.knows
  exact h.session hg

theorem Coherent.recomputeEach (h : e.Coherent) {fields : List FieldId}
    (hform : ∀ f ∈ fields, e.hasFormula f = true)
    (hpair : fields.Pairwise fun a b => ¬ e.graph.Reads a b) (records : List RecordId) :
    (e.recomputeEach fields records).2.Coherent := by
  induction records generalizing e with
  | nil => exact h
  | cons record records ih =>
    -- recomputing one record leaves formulas and graph alone
    exact ih (h.recomputeFields hform hpair) hform hpair

/-! ## Reports -/

theorem Change.fieldValue_apply {change : Change} {store : Store} {c : Cell}
    (hc : c ≠ (record, f)) :
    (change.apply store record f).fieldValue c.1 c.2 = store.fieldValue c.1 c.2 := by
  cases change with
  | value v => exact (Store.fieldValue_setValue v).trans (if_neg hc)
  | links targets => rfl

theorem Change.linkedRecords_apply {change : Change} {store : Store} {c : Cell}
    (hc : c ≠ (record, f)) :
    (change.apply store record f).linkedRecords c.1 c.2 = store.linkedRecords c.1 c.2 := by
  cases change with
  | value v => rfl
  | links targets => exact (Store.linkedRecords_setLinks targets).trans (if_neg hc)

/-- What is stored in a field with a formula plays no part. -/
theorem Coherent.stored_formula (h : e.Coherent) (hform : e.hasFormula f = true)
    (change : Change) : (e.stored record f change).Coherent := by
  have hne : ∀ c : Cell, e.hasFormula c.2 = false → c ≠ (record, f) := by
    rintro c hplain rfl
    rw [hform] at hplain
    cases hplain
  exact h.keep (P := fun _ => True) (h.sound.of_eq rfl rfl rfl) (closed_all e)
    (fun _ _ => rfl) (fun c _ hplain => Change.fieldValue_apply (hne c hplain))
    (fun c _ hplain => Change.linkedRecords_apply (hne c hplain)) rfl
    fun c entry hentry => ⟨trivial, hentry⟩

/-- The entries of cells that a change does not affect are right after it. -/
theorem Coherent.unaffected (h : e.Coherent) (hplain : e.hasFormula f = false) {change : Change}
    {c : Cell} {entry : CachedValue} (hc : ¬ (e.stored record f change).Affected (record, f) c)
    (hentry : e.cache.get? c.1 c.2 = some entry) :
    entry.value = (e.stored record f change).denote c := by
  have hs' : (e.stored record f change).Sound := h.sound.of_eq rfl rfl rfl
  have hne : c ≠ (record, f) := by
    rintro rfl
    have := h.formulas _ entry hentry
    rw [hplain] at this
    cases this
  rw [h.values c entry hentry]
  -- the store before the change differs from that after it in this cell only
  have hden : Denotes { e.stored record f change with store := e.store } e.denote :=
    h.sound.denotes
  exact hs'.denotes_unaffected (fun c hc => (Change.fieldValue_apply hc).symm)
    (fun c hc => (Change.linkedRecords_apply hc).symm) hden hne hc

/-- A report of a change starts from what is right. -/
theorem Coherent.knows_stored (h : e.Coherent) (hplain : e.hasFormula f = false)
    (change : Change) :
    Knows (e.stored record f change) (e.stored record f change).denote .cached
      (fun c => ¬ (e.stored record f change).Affected (record, f) c)
      ((e.stored record f change).changeSession (record, f)
        ((e.stored record f change).denote (record, f))) := by
  have hs' : (e.stored record f change).Sound := h.sound.of_eq rfl rfl rfl
  refine Knows.change ?_ ?_
  · intro c _ hc
    rw [hs'.denotes c, valueUnder_of_not_hasFormula hc]
  · intro c entry hc _ hentry
    exact h.unaffected hplain hc hentry

/-- A report that does not exceed the limit keeps the cache right. -/
theorem Coherent.report (h : e.Coherent) (change : Change)
    (hlimit : ∀ kind limit actual,
      e.report record f change ≠ .error (.limitExceeded kind limit actual)) :
    ((e.stored record f change).after (·.2) (e.report record f change)).Coherent := by
  have hs' : (e.stored record f change).Sound := h.sound.of_eq rfl rfl rfl
  cases hform : e.hasFormula f with
  | true =>
    have herror : e.report record f change = .error (.notASourceField f) := by
      have hform' : (e.stored record f change).hasFormula f = true := hform
      rw [Engine.report, changed, hform']
      rfl
    rw [herror]
    exact h.stored_formula hform change
  | false =>
    have hden : (e.stored record f change).store.fieldValue record f =
        (e.stored record f change).denote (record, f) := by
      rw [hs'.denotes (record, f), valueUnder_of_not_hasFormula hform]
    have hfew : {c | (e.stored record f change).Affected (record, f) c}.encard ≤
        (e.stored record f change).options.maxBatchSize := by
      by_contra hmany
      exact hlimit _ _ _ (hs'.changed_error (record, f) hform (not_le.mp hmany) _)
    obtain ⟨cells, s', hok, ⟨-, hmem, -⟩, hg, hcomputed⟩ := hs'.changed_ok (record, f) hform hfew
      hs'.denotes.explains (h.knows_stored hform change)
    rw [Engine.report, hden, hok]
    refine hs'.coherent ?_ ?_
    · intro c entry hentry
      rcases hg.of_entry hentry with hold | ⟨hform', -⟩
      · exact h.formulas c entry hold
      · exact hform'
    · intro c entry hentry
      rcases hg.of_entry hentry with hold | ⟨-, hvalue⟩
      · -- what is left from before and affected has been computed all the same
        by_cases hc : (e.stored record f change).Affected (record, f) c
        · obtain ⟨-, -, entry', hentry', hvalue⟩ := hcomputed c ((hmem c).mpr hc)
          cases hentry.symm.trans hentry'
          exact hvalue
        · exact h.unaffected hform hc hold
      · exact hvalue

/-! ## Runs -/

theorem Coherent.perform (h : e.Coherent) (op : Operation) : (e.perform op).Coherent := by
  cases op with
  | addField table name kind => exact after_cases h fun result hok => h.addField hok
  | define f source =>
    refine after_cases h fun result hok => ?_
    obtain ⟨formula, hregister⟩ := define_ok hok
    exact h.register hregister
  | register f resolver limits source =>
    refine after_cases h fun result hok => ?_
    obtain ⟨formula, -, hregister⟩ := ok_of_bind hok
    exact h.register hregister
  | remove f => exact after_cases h fun result hok => h.remove hok
  | evaluate formula record => exact h.evaluate formula
  | read record f => exact h.read.2
  | readFresh record f => exact h.readFresh.2
  | invalidate record f => exact h.drop fun c entry hentry => get?_of_invalidate hentry
  | clearCache =>
    refine h.drop fun c entry hentry => ?_
    cases hentry
  | recompute table record =>
    refine after_cases h fun result hok => ?_
    obtain ⟨fields, hfields, rfl⟩ := recompute_ok hok
    obtain ⟨hform, hpair⟩ := h.sound.tableFormulas_ok hfields
    exact h.recomputeFields hform hpair
  | recomputeMany table records =>
    refine after_cases h fun result hok => ?_
    obtain ⟨fields, hfields, rfl⟩ := recomputeMany_ok hok
    obtain ⟨hform, hpair⟩ := h.sound.tableFormulas_ok hfields
    exact h.recomputeEach hform hpair records

theorem Run.coherent {schema : Schema} {store : Store} {options : EngineOptions}
    (h : Run schema store options e) : e.Coherent := by
  induction h with
  | start => exact Coherent.new schema store options
  | operate _ op ih => exact ih.perform op
  | report _ record f change hlimit ih => exact ih.report change hlimit

/-- In every state that a run comes to, cells have exactly one meaning, every cached value is the
meaning of its cell, and so is what a read gives, from the cache or anew. -/
theorem cache_right_of_run {schema : Schema} {store : Store} {options : EngineOptions}
    (h : Run schema store options e) :
    ∃ den, e.Denotes den ∧ (∀ den', e.Denotes den' → den' = den) ∧
      (∀ record f entry, e.cache.get? record f = some entry →
        e.hasFormula f = true ∧ entry.value = den (record, f)) ∧
      ∀ record f, (e.read record f).1 = den (record, f) ∧
        (e.readFresh record f).1 = den (record, f) := by
  have hcoherent := h.coherent
  refine ⟨e.denote, hcoherent.sound.denotes, ?_, ?_, ?_⟩
  · intro den' hden'
    exact hcoherent.sound.denotes_unique hcoherent.sound.denotes hden'
  · intro record f entry hentry
    exact ⟨hcoherent.formulas (record, f) entry hentry, hcoherent.values (record, f) entry hentry⟩
  · intro record f
    exact ⟨hcoherent.read.1, hcoherent.readFresh.1⟩

/-- The small engine after its price has been set and reported. -/
def pricedEngine : Engine :=
  (priceEngine.stored ⟨0⟩ ⟨0⟩ (.value (.text "ten"))).after (·.2)
    (priceEngine.report ⟨0⟩ ⟨0⟩ (.value (.text "ten")))

theorem isSome_report_price :
    (priceEngine.report ⟨0⟩ ⟨0⟩ (.value (.text "ten"))).toOption.isSome = true := by
  cbv

theorem pricedEngine_right :
    ∃ den, pricedEngine.Denotes den ∧ den (⟨0⟩, ⟨1⟩) = .text "ten!" ∧
      (pricedEngine.readFresh ⟨0⟩ ⟨1⟩).1 = .text "ten!" := by
  obtain ⟨den, hden, -, -, hread⟩ := cache_right_of_run
    (.report (.operate (.operate .start (.define ⟨1⟩ labelSource)) (.read ⟨0⟩ ⟨1⟩)) ⟨0⟩ ⟨0⟩
      (.value (.text "ten")) fun kind limit actual herror => by
        have hsome := isSome_report_price
        rw [priceEngine, herror] at hsome
        cases hsome)
  have hvalue : (pricedEngine.read ⟨0⟩ ⟨1⟩).1 = .text "ten!" := by cbv
  have heq := (hread ⟨0⟩ ⟨1⟩).1.symm.trans hvalue
  exact ⟨den, hden, heq, (hread ⟨0⟩ ⟨1⟩).2.trans heq⟩

end Engine

end ComputedFields
