import ComputedFields.Store

/-! Computed values that are kept. Each is stamped with a version of its own, and a version once
given is never given again. -/

namespace ComputedFields

/-- A computed value and the version at which it was computed. -/
structure CachedValue where
  record : RecordId
  field : FieldId
  value : Value
  version : Nat
deriving DecidableEq

/-- Computed values of cells, and the last version given. -/
structure ValueCache where
  entries : Entries Cell CachedValue
  clock : Nat

namespace ValueCache

/-- The cache without values. -/
def empty : ValueCache := ⟨.empty, 0⟩

/-- The value kept for a cell. -/
def get? (c : ValueCache) (record : RecordId) (field : FieldId) : Option CachedValue :=
  c.entries.get? (record, field)

/-- Keeps a value for a cell, under the next version. -/
def insert (c : ValueCache) (record : RecordId) (field : FieldId) (value : Value) :
    ValueCache × Nat :=
  (⟨c.entries.set (record, field) ⟨record, field, value, c.clock + 1⟩, c.clock + 1⟩, c.clock + 1)

/-- Drops the value of a cell, and tells whether there was one. -/
def invalidate (c : ValueCache) (record : RecordId) (field : FieldId) : ValueCache × Bool :=
  ({ c with entries := c.entries.erase (record, field) }, c.entries.contains (record, field))

/-- Drops the values of some fields on every record, and tells how many. -/
def invalidateFields (c : ValueCache) (fields : List FieldId) : ValueCache × Nat :=
  let left := c.entries.filterKeys fun cell => !fields.contains cell.2
  ({ c with entries := left }, c.entries.size - left.size)

/-- Drops every value. -/
def clear (c : ValueCache) : ValueCache := { c with entries := .empty }

/-- The number of values. -/
def size (c : ValueCache) : Nat := c.entries.size

end ValueCache

end ComputedFields
