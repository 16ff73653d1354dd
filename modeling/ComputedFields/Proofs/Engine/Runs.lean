import ComputedFields.Proofs.Engine.Batch

/-!
# Runs

What an engine can come to by the operations that it offers, in any order: on a store that is left
alone, on one whose changes are all reported, and on one that changes behind its back.
-/

namespace ComputedFields

namespace Engine

variable {e e' e'' : Engine}

/-- An operation that leaves the store alone. A formula to register is one that a source text
compiles to, with any names and limits. -/
inductive Operation where
  | addField (table : TableId) (name : String) (kind : FieldKind)
  | define (f : FieldId) (source : String)
  | register (f : FieldId) (resolver : Resolver) (limits : Limits) (source : String)
  | remove (f : FieldId)
  | evaluate (formula : Formula) (record : RecordId)
  | read (record : RecordId) (f : FieldId)
  | readFresh (record : RecordId) (f : FieldId)
  | invalidate (record : RecordId) (f : FieldId)
  | clearCache
  | recompute (table : TableId) (record : RecordId)
  | recomputeMany (table : TableId) (records : List RecordId)

/-- The engine after a call that may have failed. -/
def after {ε α : Type} (e : Engine) (engine : α → Engine) : Except ε α → Engine
  | .ok result => engine result
  | .error _ => e

/-- The engine after an operation; one that fails changes nothing. -/
def perform (e : Engine) : Operation → Engine
  | .addField table name kind => e.after (·.1) (e.addField table name kind)
  | .define f source => e.after (·.1) (e.define f source)
  | .register f resolver limits source =>
    e.after (·.1) (Formula.compile resolver limits source >>= e.register f)
  | .remove f => e.after (·.1) (e.remove f)
  | .evaluate formula record => (e.evaluate formula record).2
  | .read record f => (e.read record f).2
  | .readFresh record f => (e.readFresh record f).2
  | .invalidate record f => e.invalidate record f
  | .clearCache => e.clearCache
  | .recompute table record => e.after (·.2) (e.recompute table record)
  | .recomputeMany table records => e.after (·.2) (e.recomputeMany table records)

/-- A change of what is stored in a field of a record. -/
inductive Change where
  | value (v : Value)
  | links (targets : List RecordId)

/-- The store with a change of a field of a record. -/
def Change.apply (change : Change) (store : Store) (record : RecordId) (f : FieldId) : Store :=
  match change with
  | .value v => store.setValue record f v
  | .links targets => store.setLinks record f targets

/-- The engine with a change of its store that has not been reported. -/
def stored (e : Engine) (record : RecordId) (f : FieldId) (change : Change) : Engine :=
  { e with store := change.apply e.store record f }

/-- Changes the store and reports it, with the value that the store then holds. -/
def report (e : Engine) (record : RecordId) (f : FieldId) (change : Change) :
    Except FormulaError (Batch × Engine) :=
  (e.stored record f change).changed record f
    ((e.stored record f change).store.fieldValue record f)

/-- Where an engine can come to from the start if every change of the store is reported, and the
report does not exceed the limit. A report on a field with a formula fails, and its change stays. -/
inductive Run (schema : Schema) (store : Store) (options : EngineOptions) : Engine → Prop
  | start : Run schema store options (.new schema store options)
  | operate {e : Engine} (h : Run schema store options e) (op : Operation) :
    Run schema store options (e.perform op)
  | report {e : Engine} (h : Run schema store options e) (record : RecordId) (f : FieldId)
      (change : Change)
      (hlimit : ∀ kind limit actual,
        e.report record f change ≠ .error (.limitExceeded kind limit actual)) :
    Run schema store options ((e.stored record f change).after (·.2) (e.report record f change))

/-- Where an engine can come to whatever happens to its store and whatever is reported. -/
inductive Reachable : Engine → Prop
  | start (schema : Schema) (store : Store) (options : EngineOptions) :
    Reachable (.new schema store options)
  | operate {e : Engine} (h : Reachable e) (op : Operation) : Reachable (e.perform op)
  | store {e : Engine} (h : Reachable e) (store : Store) : Reachable { e with store }
  | changed {e : Engine} (h : Reachable e) (record : RecordId) (f : FieldId) (value : Value) :
    Reachable (e.after (·.2) (e.changed record f value))

/-! ## What operations leave alone -/

theorem after_cases {ε α : Type} {engine : α → Engine} {result : Except ε α} {P : Engine → Prop}
    (herror : P e) (hok : ∀ a, result = .ok a → P (engine a)) : P (e.after engine result) := by
  cases result with
  | ok a => exact hok a rfl
  | error err => exact herror

/-- Sessions change the cache alone. -/
def SameButCache (e e' : Engine) : Prop := ∃ cache, e' = { e with cache }

theorem SameButCache.sound (h : SameButCache e e') (hs : e.Sound) : e'.Sound := by
  obtain ⟨cache, rfl⟩ := h
  exact hs.of_eq rfl rfl rfl

/-- Only the cache may change, and it gains entries of formula cells only. -/
def Recached (e e' : Engine) : Prop :=
  SameButCache e e' ∧ ∀ (c : Cell) entry, e.hasFormula c.2 = false →
    e'.cache.get? c.1 c.2 = some entry → e.cache.get? c.1 c.2 = some entry

theorem Recached.refl (e : Engine) : Recached e e :=
  ⟨⟨e.cache, rfl⟩, fun _ _ _ hentry => hentry⟩

theorem Recached.trans (h : Recached e e') (h' : Recached e' e'') : Recached e e'' := by
  obtain ⟨⟨cache, rfl⟩, hold⟩ := h
  obtain ⟨⟨cache', rfl⟩, hold'⟩ := h'
  exact ⟨⟨cache', rfl⟩, fun c entry hc hentry => hold c entry hc (hold' c entry hc hentry)⟩

/-- A session that leaves the entries of other cells alone adds entries of formula cells only. -/
theorem recached_inSession {α : Type} {x : StateM Session α}
    (hx : ∀ c : Cell, e.hasFormula c.2 = false →
      (x ⟨.empty, e.cache⟩).2.cache.get? c.1 c.2 = e.cache.get? c.1 c.2) :
    Recached e (e.inSession x).2 :=
  ⟨⟨_, rfl⟩, fun c _ hc hentry => (hx c hc).symm.trans hentry⟩

theorem recached_valueOf (mode : ReadMode) (cell : Cell) :
    Recached e (e.inSession (e.valueOf mode cell)).2 :=
  recached_inSession fun _ hc =>
    (valueOf_keeps (contained_all e) (keeps_plain hc _) trivial (Untouched.refl _ _)).2

theorem recached_evaluate (formula : Formula) (record : RecordId) :
    Recached e (e.evaluate formula record).2 :=
  recached_inSession fun _ hc =>
    (compute_keeps (contained_all e) (keeps_plain hc _) (fun _ _ _ _ => trivial)
      (Untouched.refl _ _)).2

theorem get?_of_invalidate {record : RecordId} {f : FieldId} {c : Cell} {entry : CachedValue}
    (h : (e.invalidate record f).cache.get? c.1 c.2 = some entry) :
    e.cache.get? c.1 c.2 = some entry := by
  have hget : (e.cache.entries.erase (record, f)).get? c = some entry := h
  rw [Entries.get?_erase] at hget
  split at hget
  · cases hget
  · exact hget

theorem recached_invalidate (record : RecordId) (f : FieldId) :
    Recached e (e.invalidate record f) :=
  ⟨⟨_, rfl⟩, fun _ _ _ hentry => get?_of_invalidate hentry⟩

theorem recached_clearCache : Recached e e.clearCache := by
  refine ⟨⟨_, rfl⟩, fun c entry _ hentry => ?_⟩
  cases hentry

theorem recached_recomputeEach (fields : List FieldId) (records : List RecordId) :
    Recached e (e.recomputeEach fields records).2 := by
  induction records generalizing e with
  | nil => exact Recached.refl e
  | cons record records ih =>
    have hfirst : Recached e (e.recomputeFields fields record).2 :=
      recached_inSession fun _ hc =>
        (run_keeps (contained_all e) (keeps_plain hc _) (fun _ _ => trivial)
          (Untouched.refl _ _)).2
    exact hfirst.trans ih

/-- What recomputing one record does. -/
theorem recompute_ok {table : TableId} {record : RecordId} {result : Batch × Engine}
    (h : e.recompute table record = .ok result) :
    ∃ fields, e.tableFormulas table = .ok fields ∧ result = e.recomputeFields fields record := by
  obtain ⟨fields, hfields, h⟩ := ok_of_bind h
  obtain ⟨u, -, h⟩ := ok_of_bind h
  exact ⟨fields, hfields, (Except.ok.inj h).symm⟩

theorem recomputeMany_ok {table : TableId} {records : List RecordId} {result : Batch × Engine}
    (h : e.recomputeMany table records = .ok result) :
    ∃ fields, e.tableFormulas table = .ok fields ∧ result = e.recomputeEach fields records := by
  obtain ⟨fields, hfields, h⟩ := ok_of_bind h
  obtain ⟨u, -, h⟩ := ok_of_bind h
  exact ⟨fields, hfields, (Except.ok.inj h).symm⟩

theorem recached_changed {record : RecordId} {f : FieldId} {value : Value}
    {result : Batch × Engine} (h : e.changed record f value = .ok result) :
    Recached e result.2 := by
  rw [changed] at h
  split at h
  · cases h
  · obtain ⟨cells, -, h⟩ := ok_of_bind h
    cases h
    -- the changed value is settled, which is not kept in the cache
    exact recached_inSession fun _ hc =>
      (run_keeps (contained_all e) (keeps_plain hc (Session.settle ⟨.empty, e.cache⟩ _ _))
        (fun _ _ => trivial) (Untouched.refl _ _)).2

/-- What holds after an operation if it holds before and the changes that operations make keep
it. -/
theorem perform_cases {P : Engine → Prop} (hsame : P e)
    (hadd : ∀ table name kind e' f, e.addField table name kind = .ok (e', f) → P e')
    (hregister : ∀ f φ e' diff, e.register f φ = .ok (e', diff) → P e')
    (hremove : ∀ f e' readers, e.remove f = .ok (e', readers) → P e')
    (hcache : ∀ e', Recached e e' → P e') (op : Operation) : P (e.perform op) := by
  cases op with
  | addField table name kind => exact after_cases hsame fun result hok => hadd _ _ _ _ _ hok
  | define f source =>
    refine after_cases hsame fun result hok => ?_
    obtain ⟨formula, hok⟩ := define_ok hok
    exact hregister _ _ _ _ hok
  | register f resolver limits source =>
    refine after_cases hsame fun result hok => ?_
    obtain ⟨formula, -, hok⟩ := ok_of_bind hok
    exact hregister _ _ _ _ hok
  | remove f => exact after_cases hsame fun result hok => hremove _ _ _ hok
  | evaluate formula record => exact hcache _ (recached_evaluate formula record)
  | read record f => exact hcache _ (recached_valueOf .cached (record, f))
  | readFresh record f => exact hcache _ (recached_valueOf .fresh (record, f))
  | invalidate record f => exact hcache _ (recached_invalidate record f)
  | clearCache => exact hcache _ recached_clearCache
  | recompute table record =>
    refine after_cases hsame fun result hok => ?_
    obtain ⟨fields, -, rfl⟩ := recompute_ok hok
    exact hcache _ (recached_recomputeEach fields [record])
  | recomputeMany table records =>
    refine after_cases hsame fun result hok => ?_
    obtain ⟨fields, -, rfl⟩ := recomputeMany_ok hok
    exact hcache _ (recached_recomputeEach fields records)

/-! ## Soundness -/

theorem Sound.perform (hs : e.Sound) (op : Operation) : (e.perform op).Sound :=
  perform_cases hs (fun _ _ _ _ _ hok => hs.addField hok)
    (fun _ _ _ _ hok => hs.register hok) (fun _ _ _ hok => hs.remove hok)
    (fun _ hcache => hcache.1.sound hs) op

/-- Every engine is sound. -/
theorem Reachable.sound (h : Reachable e) : e.Sound := by
  induction h with
  | start schema store options => exact Sound.new schema store options
  | operate _ op ih => exact ih.perform op
  | store _ store ih => exact ih.of_eq rfl rfl rfl
  | changed _ record f value ih =>
    exact after_cases ih fun result hok => (recached_changed hok).1.sound ih

/-! ## A small engine -/

/-- A stored field and a formula field. -/
def priceSchema : Schema where
  tables := ["items"]
  fields := [⟨⟨0⟩, ⟨0⟩, "price", .plain⟩, ⟨⟨1⟩, ⟨0⟩, "label", .formula⟩]

/-- All defaults, at the start of a year. -/
def newYear : EngineOptions where
  now := .ofDate ⟨2024, 1, 1, by decide, by decide, by decide, by decide, by decide, by decide⟩

/-- A formula that reads the stored field. -/
def labelSource : String := "{price} & \"!\""

/-- An engine whose formula field has been defined and read on a record without a price. -/
def priceEngine : Engine :=
  ((Engine.new priceSchema .empty newYear).perform (.define ⟨1⟩ labelSource)).perform
    (.read ⟨0⟩ ⟨1⟩)

end Engine

end ComputedFields
