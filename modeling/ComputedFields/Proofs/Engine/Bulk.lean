import ComputedFields.Proofs.Engine.Fresh
import ComputedFields.Proofs.Engine.SideBySide

/-!
# Bulk recomputation

The records of a bulk recomputation share the cache, so what one of them reads of another may be an
old value or a new one. Where no record reads a stale value of another, the cells that several
records share keep the values with which they are read at the start, and computing one record
changes nothing else for the others. So what a record gets does not depend on the other records that
are computed with it, nor on their order.
-/

namespace ComputedFields

open Relation

namespace Engine

variable {e : Engine} {den : Cell → Value} {s : Session} {c : Cell}

/-! ## Readings -/

/-- What a read gives while the cache stays as it is, for chains of reads up to a length: of a
formula cell what is cached, or else the value of its formula over the readings. -/
def readingWithin (e : Engine) : Nat → Cell → Value
  | 0, cell => e.store.fieldValue cell.1 cell.2
  | n + 1, cell =>
    match e.formula? cell.2, e.cache.get? cell.1 cell.2 with
    | some _, some entry => entry.value
    | _, _ => e.valueUnder (e.readingWithin n) cell

/-- What a read gives while the cache stays as it is. -/
def reading (e : Engine) : Cell → Value := e.readingWithin e.formulas.size

theorem readingWithin_of_plain (hplain : e.hasFormula c.2 = false) (n : Nat) :
    e.readingWithin n c = e.store.fieldValue c.1 c.2 := by
  cases n with
  | zero => rfl
  | succ n =>
    rw [readingWithin, formula?_eq_none hplain]
    exact valueUnder_of_not_hasFormula hplain

theorem readingWithin_of_cached {entry : CachedValue} (hform : e.hasFormula c.2 = true)
    (hentry : e.cache.get? c.1 c.2 = some entry) {n : Nat} (hn : 0 < n) :
    e.readingWithin n c = entry.value := by
  obtain ⟨φ, hφ⟩ := formula?_of_hasFormula hform
  cases n with
  | zero => exact absurd hn (Nat.lt_irrefl 0)
  | succ n => rw [readingWithin, hφ, hentry]

theorem readingWithin_of_missing (hnone : e.cache.get? c.1 c.2 = none) (n : Nat) :
    e.readingWithin (n + 1) c = e.valueUnder (e.readingWithin n) c := by
  rw [readingWithin, hnone]
  cases e.formula? c.2 <;> rfl

/-- A bound on the length of chains above the height of a cell does not matter. -/
theorem Sound.readingWithin_succ (hs : e.Sound) (n : Nat) (cell : Cell)
    (hheight : e.hasFormula cell.2 = true → e.graph.height cell.2 < n) :
    e.readingWithin (n + 1) cell = e.readingWithin n cell := by
  induction n generalizing cell with
  | zero =>
    have hplain : e.hasFormula cell.2 = false := by
      by_contra h
      exact absurd (hheight ((Bool.not_eq_false _).mp h)) (Nat.not_lt_zero _)
    rw [readingWithin_of_plain hplain, readingWithin_of_plain hplain]
  | succ n ih =>
    cases hform : e.hasFormula cell.2 with
    | false => rw [readingWithin_of_plain hform, readingWithin_of_plain hform]
    | true =>
      cases hentry : e.cache.get? cell.1 cell.2 with
      | some entry =>
        rw [readingWithin_of_cached hform hentry (Nat.succ_pos _),
          readingWithin_of_cached hform hentry (Nat.succ_pos _)]
      | none =>
        rw [readingWithin_of_missing hentry, readingWithin_of_missing hentry]
        refine hs.valueUnder_congr_self fun b hread => ih b fun hb => ?_
        -- what the cell reads is lower, so a shorter bound is enough for it
        have hlower := hs.height_lt hread hb
        have := hheight hform
        omega

/-- A session starts from readings that are right as long as nothing is computed anew. -/
theorem Sound.grounded_reading (hs : e.Sound) (trusted : Cell → Prop) :
    Grounded e e.reading .cached trusted ⟨.empty, e.cache⟩ where
  settled := by
    intro c _ v hv
    cases hv
  known := by
    intro c _ hform v hv
    rcases of_known? hv with hv | ⟨entry, hentry, rfl⟩
    · cases hv
    · have hpos := Nat.zero_lt_of_lt (hs.height_lt_size hform)
      exact (readingWithin_of_cached hform hentry hpos).symm
  stored := fun c hplain _ => (readingWithin_of_plain hplain _).symm
  missing := by
    intro c _ hform hnone
    have hsucc := hs.readingWithin_succ e.formulas.size c hs.height_lt_size
    rw [readingWithin_of_missing (not_cached_of_known? hnone)] at hsucc
    exact hsucc.symm

/-- Evaluating the formula of a cell gives its value over the readings. -/
theorem Sound.evaluate_eq (hs : e.Sound) {φ : Formula} (hφ : e.formula? c.2 = some φ) :
    (e.evaluate φ c.1).1 = e.valueUnder e.reading c := by
  have hgives : Gives e e.reading .cached _ Value (e.compute .cached c.1 φ.root) _ :=
    hs.compute_gives (closed_all e) fun _ _ _ _ => trivial
  rw [valueUnder, hφ]
  exact (hgives ⟨.empty, e.cache⟩ (hs.grounded_reading _)).1

/-! ## Batches -/

theorem resolve_withCache (cache : ValueCache) (mode : ReadMode) (limit : Nat) (s : Session)
    (cell : Cell) :
    resolve { e with cache } mode limit s cell = e.resolve mode limit s cell := by
  induction limit generalizing s cell with
  | zero => rfl
  | succ limit ih =>
    rw [resolve, resolve]
    simp only [ih]
    rfl

theorem compute_withCache (cache : ValueCache) (mode : ReadMode) :
    compute { e with cache } mode = e.compute mode := by
  have hresolving : resolving { e with cache } mode = e.resolving mode := by
    funext cell s
    rw [resolving, resolving, resolve_withCache]
  have hview : view { e with cache } mode = e.view mode := by
    funext record
    rw [view, view, hresolving]
    rfl
  funext record root
  rw [compute, compute, hview]

/-- What computing cells does depends on the cache of the session alone. -/
theorem run_withCache (cache : ValueCache) (cells : List Cell) :
    run { e with cache } cells = e.run cells := by
  induction cells with
  | nil => rfl
  | cons cell cells ih =>
    rw [run, run, compute_withCache, ih]
    rfl

/-- The session in which the given fields of a record are computed, from a cache. -/
def recordSession (e : Engine) (fields : List FieldId) (record : RecordId) (cache : ValueCache) :
    Batch × Session :=
  e.run (fields.map fun f => (record, f)) ⟨.empty, cache⟩

/-- Of several records the first is computed, and then the others with what it left in the cache. -/
theorem recomputeEach_cons (fields : List FieldId) (record : RecordId) (records : List RecordId)
    (cache : ValueCache) :
    let first := e.recordSession fields record cache
    (recomputeEach { e with cache } fields (record :: records)).1 =
      first.1 ++ (recomputeEach { e with cache := first.2.cache } fields records).1 := by
  have hfirst : recomputeFields { e with cache } fields record =
      ((e.recordSession fields record cache).1,
        { e with cache := (e.recordSession fields record cache).2.cache }) := by
    rw [recomputeFields, run_withCache]
    rfl
  rw [recomputeEach, hfirst]

theorem forRecord_append (batch batch' : Batch) (record : RecordId) :
    Batch.forRecord (batch ++ batch') record =
      batch.forRecord record ++ batch'.forRecord record := by
  rw [Batch.forRecord, List.filter_append, List.map_append]
  rfl

/-- Only the given cells are in the batch. -/
theorem mem_of_mem_run {cells : List Cell} {computed : Recomputed}
    (h : computed ∈ (e.run cells s).1) : (computed.record, computed.field) ∈ cells := by
  induction cells generalizing s with
  | nil => cases h
  | cons cell cells ih =>
    cases hφ : e.formula? cell.2 with
    | none =>
      rw [run, hφ] at h
      exact List.mem_cons_of_mem _ (ih h)
    | some φ =>
      rw [run_cons hφ] at h
      rcases List.mem_cons.mp h with rfl | h
      · exact List.mem_cons_self
      · exact List.mem_cons_of_mem _ (ih h)

theorem forRecord_recordSession {fields : List FieldId} {record other : RecordId}
    {cache : ValueCache} (hne : other ≠ record) :
    (e.recordSession fields other cache).1.forRecord record = [] := by
  rw [Batch.forRecord, List.map_eq_nil_iff, List.filter_eq_nil_iff]
  intro computed hmem hrecord
  obtain ⟨f, -, heq⟩ := List.mem_map.mp (mem_of_mem_run hmem)
  exact hne ((Prod.mk.inj heq).1.trans (of_decide_eq_true hrecord))

/-! ## Cells that records share -/

/-- A cell is upstream of one of the given fields of a record. -/
def Behind (e : Engine) (fields : List FieldId) (record : RecordId) (cell : Cell) : Prop :=
  ∃ f ∈ fields, e.Upstream (record, f) cell

/-- A cell is behind two of the records. -/
def Shared (e : Engine) (fields : List FieldId) (records : List RecordId) (cell : Cell) : Prop :=
  ∃ r ∈ records, ∃ r' ∈ records, r ≠ r' ∧ e.Behind fields r cell ∧ e.Behind fields r' cell

variable {fields : List FieldId} {records : List RecordId} {record : RecordId}
  {cache cache' : ValueCache}

theorem Sound.closed_behind (hs : e.Sound) (fields : List FieldId) (record : RecordId) :
    e.Closed (e.Behind fields record) := by
  rintro a b ⟨f, hf, hup⟩ hread
  refine ⟨f, hf, ?_⟩
  rw [hs.upstream_eq] at hup ⊢
  exact hup.tail hread

theorem Sound.closed_shared (hs : e.Sound) (fields : List FieldId) (records : List RecordId) :
    e.Closed (e.Shared fields records) := by
  rintro a b ⟨r, hr, r', hr', hne, ha, ha'⟩ hread
  exact ⟨r, hr, r', hr', hne, hs.closed_behind fields r a b ha hread,
    hs.closed_behind fields r' a b ha' hread⟩

theorem behind_of_mem {a : Cell} (h : a ∈ fields.map fun f => (record, f)) :
    e.Behind fields record a := by
  obtain ⟨f, hf, rfl⟩ := List.mem_map.mp h
  exact ⟨f, hf, .refl⟩

/-- The shared cells among those to compute are worth what their formulas give. -/
def Steady (e : Engine) (den : Cell → Value) (fields : List FieldId) (records : List RecordId) :
    Prop :=
  ∀ r ∈ records, ∀ f ∈ fields, e.Shared fields records (r, f) →
    den (r, f) = e.valueUnder den (r, f)

theorem Steady.cells (h : e.Steady den fields records) (hr : record ∈ records) :
    ∀ a ∈ fields.map fun f => (record, f), e.Shared fields records a →
      den a = e.valueUnder den a := by
  intro a ha hin
  obtain ⟨f, hf, rfl⟩ := List.mem_map.mp ha
  exact h record hr f hf hin

theorem saved_recordSession (fields : List FieldId) (record : RecordId) (cache : ValueCache) :
    Saved (e.recordSession fields record cache).2 :=
  run_keeps (contained_all e) keeps_saved (fun _ _ => trivial) fun _ _ hv => by cases hv

/-- Two caches that hold the same for the cells behind a record, but for shared ones. -/
def SameBehind (e : Engine) (den : Cell → Value) (fields : List FieldId) (records : List RecordId)
    (record : RecordId) (cache cache' : ValueCache) : Prop :=
  SideBySide e den (e.Shared fields records) (e.Behind fields record) ⟨.empty, cache⟩
    ⟨.empty, cache'⟩

/-- Computing the record from both gives the same. -/
theorem SameBehind.own (hs : e.Sound) (hsteady : e.Steady den fields records)
    (hr : record ∈ records) (h : SameBehind e den fields records record cache cache') :
    (e.recordSession fields record cache').1 = (e.recordSession fields record cache).1 ∧
      SameBehind e den fields records record (e.recordSession fields record cache).2.cache
        (e.recordSession fields record cache').2.cache := by
  obtain ⟨hbatch, hnext⟩ := SideBySide.run hs (hs.closed_shared fields records)
    (hs.closed_behind fields record) (fun a => behind_of_mem) (hsteady.cells hr) h
  exact ⟨hbatch, hnext.restart (saved_recordSession _ _ _) (saved_recordSession _ _ _)⟩

/-- Computing another record from one of them changes nothing behind the record that both do not
share. -/
theorem SameBehind.other (hs : e.Sound) (hsteady : e.Steady den fields records)
    (hr : record ∈ records) {other : RecordId} (hother : other ∈ records) (hne : other ≠ record)
    (h : SameBehind e den fields records record cache cache') :
    SameBehind e den fields records record (e.recordSession fields other cache).2.cache cache' := by
  -- the session runs beside itself, to see that it keeps shared cells right
  have hself : SideBySide e den (e.Shared fields records) (fun _ => True) ⟨.empty, cache⟩
      ⟨.empty, cache⟩ := ⟨h.left, h.left, fun _ _ _ _ => rfl, fun _ _ => ⟨rfl, rfl⟩⟩
  obtain ⟨-, hnext⟩ := hself.run hs (hs.closed_shared fields records) (closed_all e)
    (fun _ _ => trivial) (hsteady.cells hother)
  have hsaved : Saved (e.recordSession fields other cache).2 := saved_recordSession _ _ _
  refine SideBySide.advance h (hnext.restart hsaved hsaved).left fun c hc => ⟨rfl, ?_⟩
  refine (run_keeps (hs.contained (hs.closed_behind fields other))
    (keeps_untouched (fun hform hbehind => ?_) ⟨.empty, cache⟩) (fun a => behind_of_mem)
    (Untouched.refl _ c)).2
  obtain ⟨hin, hoff⟩ := hc hform
  exact hoff ⟨other, hother, record, hr, hne, hbehind, hin⟩

/-- What a record gets does not depend on the other records that are computed with it. -/
theorem SameBehind.forRecord_recomputeEach (hs : e.Sound) (hsteady : e.Steady den fields records)
    (hr : record ∈ records) (part : List RecordId) (hpart : ∀ r ∈ part, r ∈ records)
    (h : SameBehind e den fields records record cache cache') :
    (recomputeEach { e with cache := cache' } fields
        (part.filter (· = record))).1.forRecord record =
      (recomputeEach { e with cache } fields part).1.forRecord record := by
  induction part generalizing cache cache' with
  | nil => rfl
  | cons r rest ih =>
    obtain ⟨hfirst, hrest⟩ := List.forall_mem_cons.mp hpart
    rw [recomputeEach_cons, forRecord_append]
    by_cases heq : r = record
    · subst heq
      obtain ⟨hbatch, hnext⟩ := h.own hs hsteady hr
      rw [List.filter_cons_of_pos (by simp), recomputeEach_cons, forRecord_append, hbatch,
        ih hrest hnext]
    · rw [List.filter_cons_of_neg (by simpa using heq), forRecord_recordSession heq,
        List.nil_append]
      exact ih hrest (h.other hs hsteady hr hfirst heq)

theorem forRecord_recomputeEach_of_not_mem (h : record ∉ records) (cache : ValueCache) :
    (recomputeEach { e with cache } fields records).1.forRecord record = [] := by
  induction records generalizing cache with
  | nil => rfl
  | cons r rest ih =>
    have hne : r ≠ record := (List.ne_of_not_mem_cons h).symm
    rw [recomputeEach_cons, forRecord_append, forRecord_recordSession hne,
      ih (List.not_mem_of_not_mem_cons h)]
    rfl

/-- Where shared cells are read with the values that their formulas give, the order of the records
does not matter. -/
theorem Steady.forRecord_perm (h : e.Steady e.reading fields records) (hs : e.Sound)
    {records' : List RecordId} (hperm : records'.Perm records) (record : RecordId) :
    (e.recomputeEach fields records').1.forRecord record =
      (e.recomputeEach fields records).1.forRecord record := by
  by_cases hr : record ∈ records
  · have hsame : SameBehind e e.reading fields records record e.cache e.cache :=
      ⟨hs.grounded_reading _, hs.grounded_reading _, fun _ _ _ _ => rfl, fun _ _ => ⟨rfl, rfl⟩⟩
    -- both orders compute the record as often
    have hfilter : records'.filter (· = record) = records.filter (· = record) := by
      rw [List.filter_eq, List.filter_eq, hperm.count_eq]
    have halone := hsame.forRecord_recomputeEach hs h hr records fun r hmem => hmem
    have halone' := hsame.forRecord_recomputeEach hs h hr records' fun r hmem =>
      hperm.mem_iff.mp hmem
    rw [hfilter] at halone'
    exact halone'.symm.trans halone
  · have hr' : record ∉ records' := fun hmem => hr (hperm.mem_iff.mp hmem)
    exact (forRecord_recomputeEach_of_not_mem hr' e.cache).trans
      (forRecord_recomputeEach_of_not_mem hr e.cache).symm

/-! ## The order of records -/

/-- No record reads a stale value of another. Where a formula cell of one of the records is upstream
of a field of another one, the cache holds either nothing for it or what its formula gives now. -/
def Undisturbed (e : Engine) (table : TableId) (records : List RecordId) : Prop :=
  ∀ r ∈ records, ∀ r' ∈ records, r ≠ r' →
    ∀ f ∈ (e.schema.fieldsIn table).map (·.id), ∀ f' ∈ (e.schema.fieldsIn table).map (·.id),
      e.Upstream (r', f') (r, f) → ∀ φ entry, e.formula? f = some φ →
        e.cache.get? r f = some entry → (e.evaluate φ r).1 = entry.value

theorem Undisturbed.steady (hs : e.Sound) {table : TableId} (h : e.Undisturbed table records)
    (hfields : e.tableFormulas table = .ok fields) : e.Steady e.reading fields records := by
  have hids : ∀ f ∈ fields, f ∈ (e.schema.fieldsIn table).map (·.id) ∧ e.hasFormula f = true := by
    obtain ⟨-, hmem, -⟩ := DependencyGraph.schedule_mem hs.graph hfields
    exact fun f hf => List.mem_filter.mp ((hmem f).mp hf)
  have hgrounded := hs.grounded_reading fun _ => True
  rintro r hr f hf ⟨r₁, hr₁, r₂, hr₂, hne, hbehind₁, hbehind₂⟩
  obtain ⟨hf, hform⟩ := hids f hf
  obtain ⟨φ, hφ⟩ := formula?_of_hasFormula hform
  -- one of the two records is another one than the record of the cell
  obtain ⟨r', hr', hother, f', hf', hup⟩ :
      ∃ r' ∈ records, r ≠ r' ∧ e.Behind fields r' (r, f) := by
    by_cases heq : r = r₁
    · exact ⟨r₂, hr₂, heq ▸ hne, hbehind₂⟩
    · exact ⟨r₁, hr₁, heq, hbehind₁⟩
  cases hentry : e.cache.get? r f with
  | none => exact hgrounded.missing (r, f) trivial hform (by simp [Session.known?, hentry])
  | some entry =>
    have hvalue := h r hr r' hr' hother f hf f' (hids f' hf').1 hup φ entry hφ hentry
    have hevaluate : (e.evaluate φ r).1 = e.valueUnder e.reading (r, f) :=
      hs.evaluate_eq (c := (r, f)) hφ
    rw [← hevaluate, hvalue]
    exact (hgrounded.known (r, f) trivial hform entry.value
      (by simp [Session.known?, hentry])).symm

/-- Where no record reads a stale value of another, what each of them gets does not depend on the
order in which they are computed. The clock stands still: it is the one instant of the options for
every record. -/
theorem recomputeMany_perm (h : Reachable e) {table : TableId} {records' : List RecordId}
    (hperm : records'.Perm records) (hundisturbed : e.Undisturbed table records)
    (record : RecordId) :
    (e.recomputeMany table records').map (·.1.forRecord record) =
      (e.recomputeMany table records).map (·.1.forRecord record) := by
  have hs := h.sound
  rw [recomputeMany, recomputeMany, hperm.length_eq]
  cases hfields : e.tableFormulas table with
  | error err => rfl
  | ok fields =>
    cases hcheck : e.checkBatch (fields.length * records.length) with
    | error err => simp only [hcheck, bind, Except.bind, Except.map]
    | ok u =>
      simp only [hcheck, bind, Except.bind, pure, Except.pure, Except.map, Except.ok.injEq]
      exact (hundisturbed.steady hs hfields).forRecord_perm hs hperm record

/-- Records with a price and a label that shows it, linked to peers whose labels they gather. -/
def peerSchema : Schema where
  tables := ["items"]
  fields := priceSchema.fields ++
    [⟨⟨2⟩, ⟨0⟩, "peers", .link ⟨0⟩⟩, ⟨⟨3⟩, ⟨0⟩, "board", .formula⟩]

/-- The first record is linked to the second, which has a price. -/
def peerStore (price : String) : Store :=
  (Store.empty.setLinks ⟨0⟩ ⟨2⟩ [⟨1⟩]).setValue ⟨1⟩ ⟨0⟩ (.text price)

/-- An engine in which all has been computed, before the price changes behind its back. -/
def peerEngine : Engine :=
  { (((new peerSchema (peerStore "old") newYear).perform (.define ⟨1⟩ labelSource)).perform
      (.define ⟨3⟩ "{peers}.{label}")).perform (.recomputeMany ⟨0⟩ [⟨0⟩, ⟨1⟩]) with
    store := peerStore "new" }

theorem reachable_peerEngine : peerEngine.Reachable :=
  .store (.operate (.operate (.operate (.start peerSchema (peerStore "old") newYear)
    (.define ⟨1⟩ labelSource)) (.define ⟨3⟩ "{peers}.{label}"))
    (.recomputeMany ⟨0⟩ [⟨0⟩, ⟨1⟩])) (peerStore "new")

/-- The same engine after the stale label has been dropped. -/
def droppedEngine : Engine := peerEngine.perform (.invalidate ⟨1⟩ ⟨1⟩)

theorem reachable_droppedEngine : droppedEngine.Reachable :=
  .operate reachable_peerEngine (.invalidate ⟨1⟩ ⟨1⟩)

/-- The board of the first record is stale here too, but no other record reads it. -/
theorem undisturbed_droppedEngine : droppedEngine.Undisturbed ⟨0⟩ [⟨0⟩, ⟨1⟩] := by
  intro r hr r' _ hne f hf f' _ hup φ entry hφ hentry
  have hfields : (droppedEngine.schema.fieldsIn ⟨0⟩).map (·.id) = [⟨0⟩, ⟨1⟩, ⟨2⟩, ⟨3⟩] := by cbv
  have hplain : droppedEngine.formula? ⟨0⟩ = none ∧ droppedEngine.formula? ⟨2⟩ = none := by
    constructor <;> cbv
  rw [hfields] at hf
  simp only [List.mem_cons, List.not_mem_nil, or_false] at hr hf
  rcases hf with rfl | rfl | rfl | rfl
  · rw [hplain.1] at hφ
    cases hφ
  · -- the label of the first record is right, and the other one has been dropped
    rcases hr with rfl | rfl
    · have hevaluate : (droppedEngine.formula? ⟨1⟩).map
          (fun φ => (droppedEngine.evaluate φ ⟨0⟩).1) = some (.text "!") := by cbv
      have hcached : (droppedEngine.cache.get? ⟨0⟩ ⟨1⟩).map (·.value) = some (.text "!") := by cbv
      rw [hφ] at hevaluate
      rw [hentry] at hcached
      exact (Option.some.inj hevaluate).trans (Option.some.inj hcached).symm
    · have hdropped : droppedEngine.cache.get? ⟨1⟩ ⟨1⟩ = none := by cbv
      rw [hdropped] at hentry
      cases hentry
  · rw [hplain.2] at hφ
    cases hφ
  · -- no formula reads boards, so a board is upstream of itself only
    have hmirrored := reachable_droppedEngine.sound.graph.mirrored
    have hreaders : droppedEngine.graph.dependentFields ⟨3⟩ = [] := by cbv
    rcases ReflTransGen.cases_tail hup with heq | ⟨b, -, kind, hedge, -⟩
    · exact absurd (Prod.mk.inj heq).1 hne
    · have hreads : droppedEngine.graph.Reads b.2 ⟨3⟩ :=
        ⟨kind, DependencyGraph.mem_precedents.mp hedge⟩
      rw [← DependencyGraph.mem_dependentFields hmirrored, hreaders] at hreads
      cases hreads

theorem recomputeMany_droppedEngine :
    (droppedEngine.read ⟨0⟩ ⟨3⟩).1 = .list [.text "old!"] ∧
      (droppedEngine.recomputeMany ⟨0⟩ [⟨1⟩, ⟨0⟩]).map (·.1.forRecord ⟨0⟩) =
        .ok [(⟨1⟩, .text "!"), (⟨3⟩, .list [.text "new!"])] := by
  have hfirst : (droppedEngine.recomputeMany ⟨0⟩ [⟨0⟩, ⟨1⟩]).map (·.1.forRecord ⟨0⟩) =
      .ok [(⟨1⟩, .text "!"), (⟨3⟩, .list [.text "new!"])] := by cbv
  have hperm : [(⟨1⟩ : RecordId), ⟨0⟩].Perm [⟨0⟩, ⟨1⟩] := .swap _ _ []
  have hsame := recomputeMany_perm reachable_droppedEngine hperm undisturbed_droppedEngine ⟨0⟩
  exact ⟨by cbv, hsame.trans hfirst⟩

/-- A record that reads a stale value of another one gets the old value or a new one, according to
which of them comes first. -/
theorem recomputeMany_order_matters :
    ¬ ∀ e, Reachable e → ∀ (table : TableId) (records records' : List RecordId),
      records'.Perm records → ∀ record,
        (e.recomputeMany table records').map (·.1.forRecord record) =
          (e.recomputeMany table records).map (·.1.forRecord record) := by
  intro h
  have hboth := h peerEngine reachable_peerEngine ⟨0⟩ [⟨0⟩, ⟨1⟩] [⟨1⟩, ⟨0⟩] (.swap _ _ []) ⟨0⟩
  have hold : (peerEngine.recomputeMany ⟨0⟩ [⟨0⟩, ⟨1⟩]).map (·.1.forRecord ⟨0⟩) =
      .ok [(⟨1⟩, .text "!"), (⟨3⟩, .list [.text "old!"])] := by cbv
  have hnew : (peerEngine.recomputeMany ⟨0⟩ [⟨1⟩, ⟨0⟩]).map (·.1.forRecord ⟨0⟩) =
      .ok [(⟨1⟩, .text "!"), (⟨3⟩, .list [.text "new!"])] := by cbv
  rw [hold, hnew] at hboth
  exact absurd (Except.ok.inj hboth) (by decide)

end Engine

end ComputedFields
