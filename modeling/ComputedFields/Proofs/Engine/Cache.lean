import ComputedFields.Engine.Cache
import Mathlib.Data.Set.Card

/-!
# Cached values

After any operations on a cache, what it has for a cell is what was put there last, unless that has
been dropped since. Each value has a version of its own, which counts the values that were ever put
into the cache, so that dropping some of them, or all, brings no version back.
-/

namespace ComputedFields

/-! ## Numbers of entries -/

namespace Entries

variable {κ ν : Type}

/-- What a filter leaves and what the opposite one leaves make up the map. -/
theorem size_filterKeys_add (m : Entries κ ν) (p : κ → Bool) :
    (m.filterKeys p).size + (m.filterKeys fun key => !p key).size = m.size := by
  have hsplit := List.length_eq_length_filter_add (l := m.toList) fun entry => p entry.1
  exact hsplit.symm

variable [DecidableEq κ]

/-- The size of a map is the number of keys that have a value. -/
theorem encard_contains (m : Entries κ ν) : {key | m.contains key = true}.encard = m.size := by
  have hset : {key | m.contains key = true} = m.keys.toFinset := by
    ext key
    simp [mem_keys]
  have hnodup : m.keys.Nodup := m.nodup
  have hcard : m.keys.toFinset.card = m.size := by
    rw [List.toFinset_card_of_nodup hnodup, keys, size, List.length_map]
  rw [hset, Set.encard_coe_eq_coe_finsetCard, hcard]

end Entries

namespace ValueCache

variable {c : ValueCache} {cell : Cell} {entry : CachedValue}

/-! ## Operations -/

/-- An operation on a cache. -/
inductive Operation where
  | insert (record : RecordId) (field : FieldId) (value : Value)
  | invalidate (record : RecordId) (field : FieldId)
  | invalidateFields (fields : List FieldId)
  | clear

/-- The cache after an operation. -/
def perform (c : ValueCache) : Operation → ValueCache
  | .insert record field value => (c.insert record field value).1
  | .invalidate record field => (c.invalidate record field).1
  | .invalidateFields fields => (c.invalidateFields fields).1
  | .clear => c.clear

/-- The cache that operations make of the empty one, the latest operation first. -/
def performed : List Operation → ValueCache
  | [] => empty
  | latest :: earlier => (performed earlier).perform latest

namespace Operation

/-- Whether an operation puts a value into the cache, and so gives a version. -/
def isInsert : Operation → Bool
  | .insert _ _ _ => true
  | _ => false

/-- An operation leaves nothing of what a cell had: it puts another value there, or drops it. -/
def Ends (cell : Cell) : Operation → Prop
  | .insert record field _ => cell = (record, field)
  | .invalidate record field => cell = (record, field)
  | .invalidateFields fields => cell.2 ∈ fields
  | .clear => True

end Operation

/-- What an operation leaves: the values of the cells that it does not end, as they were, and the
value that it puts into the cache, under the version after the last one. -/
theorem get?_perform_iff {op : Operation} : (c.perform op).get? cell.1 cell.2 = some entry ↔
    (¬ op.Ends cell ∧ c.get? cell.1 cell.2 = some entry) ∨
      ∃ value, op = .insert cell.1 cell.2 value ∧
        entry = ⟨cell.1, cell.2, value, (c.insert cell.1 cell.2 value).2⟩ := by
  cases op with
  | insert record field value =>
    show (c.entries.set (record, field) _).get? cell = some entry ↔ _
    rw [Entries.get?_set]
    by_cases hcell : cell = (record, field)
    · subst hcell
      simp [Operation.Ends, insert, eq_comm]
    · have hother : ¬ (record = cell.1 ∧ field = cell.2) := by
        rintro ⟨rfl, rfl⟩
        exact hcell rfl
      simp [Operation.Ends, hcell, get?, hother, ← and_assoc]
  | invalidate record field =>
    show (c.entries.erase (record, field)).get? cell = some entry ↔ _
    by_cases hcell : cell = (record, field) <;> simp [Operation.Ends, hcell, get?]
  | invalidateFields fields =>
    show (c.entries.filterKeys _).get? cell = some entry ↔ _
    by_cases hcell : cell.2 ∈ fields <;> simp [Operation.Ends, hcell, get?]
  | clear =>
    show (Entries.empty : Entries Cell CachedValue).get? cell = some entry ↔ _
    simp [Operation.Ends]

theorem clock_perform (c : ValueCache) (op : Operation) :
    (c.perform op).clock = c.clock + if op.isInsert then 1 else 0 := by
  cases op <;> rfl

theorem insert_snd (c : ValueCache) (record : RecordId) (field : FieldId) (value : Value) :
    (c.insert record field value).2 = c.clock + 1 := rfl

/-! ## Runs of operations -/

/-- The last version is the number of values that were put into the cache. -/
theorem clock_performed (ops : List Operation) :
    (performed ops).clock = ops.countP Operation.isInsert := by
  induction ops with
  | nil => rfl
  | cons latest earlier ih => rw [performed, clock_perform, ih, List.countP_cons]

/-- What a cell has was put there by an operation that no later one ends. -/
theorem get?_performed_iff (cell : Cell) (ops : List Operation) :
    (performed ops).get? cell.1 cell.2 = some entry ↔
      ∃ later value earlier, ops = later ++ .insert cell.1 cell.2 value :: earlier ∧
        (∀ op ∈ later, ¬ op.Ends cell) ∧
        entry = ⟨cell.1, cell.2, value, ((performed earlier).insert cell.1 cell.2 value).2⟩ := by
  induction ops with
  | nil =>
    constructor
    · intro h
      cases h
    · rintro ⟨later, value, earlier, hops, -⟩
      simp at hops
  | cons latest rest ih =>
    rw [performed, get?_perform_iff, ih]
    constructor
    · rintro (⟨hends, later, value, earlier, rfl, hlater, rfl⟩ | ⟨value, rfl, rfl⟩)
      · exact ⟨latest :: later, value, earlier, rfl, List.forall_mem_cons.mpr ⟨hends, hlater⟩, rfl⟩
      · exact ⟨[], value, rest, rfl, by simp, rfl⟩
    · rintro ⟨later, value, earlier, hops, hlater, rfl⟩
      cases later with
      | nil =>
        obtain ⟨rfl, rfl⟩ := List.cons.inj hops
        exact .inr ⟨value, rfl, rfl⟩
      | cons op later =>
        obtain ⟨rfl, rfl⟩ := List.cons.inj hops
        obtain ⟨hends, hlater⟩ := List.forall_mem_cons.mp hlater
        exact .inl ⟨hends, later, value, earlier, rfl, hlater, rfl⟩

/-- No two cells have values of one version, and none has one beyond the last. -/
structure Stamped (c : ValueCache) : Prop where
  le : ∀ {cell : Cell} {entry}, c.get? cell.1 cell.2 = some entry → entry.version ≤ c.clock
  inj : ∀ {cell cell' : Cell} {entry entry'}, c.get? cell.1 cell.2 = some entry →
    c.get? cell'.1 cell'.2 = some entry' → entry.version = entry'.version → cell = cell'

theorem Stamped.perform (h : c.Stamped) (op : Operation) : (c.perform op).Stamped where
  le hentry := by
    rw [clock_perform]
    obtain ⟨-, hentry⟩ | ⟨value, rfl, rfl⟩ := get?_perform_iff.mp hentry
    · exact (h.le hentry).trans (Nat.le_add_right _ _)
    · exact Nat.le_refl _
  inj {cell cell' entry entry'} hentry hentry' hversion := by
    obtain ⟨-, hold⟩ | ⟨value, rfl, rfl⟩ := get?_perform_iff.mp hentry <;>
      obtain ⟨-, hold'⟩ | ⟨value', hop, rfl⟩ := get?_perform_iff.mp hentry'
    · exact h.inj hold hold' hversion
    · -- the new version is beyond all old ones
      have hle : entry.version ≤ c.clock := h.le hold
      have hnew : entry.version = c.clock + 1 := hversion
      omega
    · have hle : entry'.version ≤ c.clock := h.le hold'
      have hnew : c.clock + 1 = entry'.version := hversion
      omega
    · injection hop with hrecord hfield
      exact Prod.ext hrecord hfield

theorem stamped_performed (ops : List Operation) : (performed ops).Stamped := by
  induction ops with
  | nil =>
    constructor
    · intro cell entry h
      cases h
    · intro cell cell' entry entry' h
      cases h
  | cons latest earlier ih => exact ih.perform latest

/-! ## Counts -/

/-- The cells that have a value. -/
def live (c : ValueCache) : Set Cell := {cell | (c.get? cell.1 cell.2).isSome = true}

theorem encard_live (c : ValueCache) : c.live.encard = c.size := c.entries.encard_contains

theorem invalidateFields_snd (c : ValueCache) (fields : List FieldId) :
    (c.invalidateFields fields).2 =
      (c.entries.filterKeys fun cell => fields.contains cell.2).size := by
  have hsize := c.entries.size_filterKeys_add fun cell => fields.contains cell.2
  rw [invalidateFields]
  omega

theorem encard_dropped (c : ValueCache) (fields : List FieldId) :
    {cell ∈ c.live | cell.2 ∈ fields}.encard = (c.invalidateFields fields).2 := by
  rw [invalidateFields_snd, ← Entries.encard_contains]
  congr 1
  ext cell
  by_cases hfield : cell.2 ∈ fields <;> simp [live, Entries.contains, hfield, get?]

/-- After any operations a cell has the value that was put there last, with the version that this
gave, unless a later operation has dropped it. The versions are the numbers of the values that were
put into the cache, dropped or not, so no two cells have values of one version and none is beyond
the last. The size is the number of cells that have a value, and what the dropping of some fields
returns is the number of these whose fields are among them. -/
theorem last_insert_kept (ops : List Operation) :
    (∀ record field entry, (performed ops).get? record field = some entry ↔
      ∃ later value earlier, ops = later ++ .insert record field value :: earlier ∧
        (∀ op ∈ later, ¬ op.Ends (record, field)) ∧
        entry = ⟨record, field, value, ((performed earlier).insert record field value).2⟩) ∧
    (∀ record field value,
      ((performed ops).insert record field value).2 = ops.countP Operation.isInsert + 1) ∧
    (performed ops).clock = ops.countP Operation.isInsert ∧
    (performed ops).Stamped ∧
    (performed ops).live.encard = (performed ops).size ∧
    ∀ fields, {cell ∈ (performed ops).live | cell.2 ∈ fields}.encard =
      ((performed ops).invalidateFields fields).2 := by
  refine ⟨fun record field entry => ?_, fun record field value => ?_, clock_performed ops,
    stamped_performed ops, encard_live _, encard_dropped _⟩
  · exact get?_performed_iff (record, field) ops
  · rw [insert_snd, clock_performed]

/-- A value that is put into a cache after all others were dropped has the next version. -/
example : (performed [.insert ⟨0⟩ ⟨1⟩ .null, .clear, .insert ⟨2⟩ ⟨1⟩ .null,
    .insert ⟨0⟩ ⟨1⟩ .null]).get? ⟨0⟩ ⟨1⟩ = some ⟨⟨0⟩, ⟨1⟩, .null, 3⟩ := by rfl

end ValueCache

end ComputedFields
