/-! Finite maps: a list of keys with their values in which no key comes twice. `get?` is the
view; `get?_set`, `get?_erase` and `get?_filterKeys` say what each operation does to it. -/

namespace ComputedFields

/-- A finite map from keys to values. -/
structure Entries (κ ν : Type) where
  toList : List (κ × ν)
  nodup : (toList.map (·.1)).Nodup

namespace Entries

variable {κ ν : Type} [DecidableEq κ]

/-- The map without entries. -/
def empty : Entries κ ν := ⟨[], List.nodup_nil⟩

instance : Inhabited (Entries κ ν) := ⟨empty⟩

/-- The value that a list of entries has under a key. -/
def lookup (key : κ) : List (κ × ν) → Option ν
  | [] => none
  | (k, v) :: rest => if k = key then some v else lookup key rest

/-- The value under a key. -/
def get? (m : Entries κ ν) (key : κ) : Option ν := lookup key m.toList

/-- Whether there is a value under a key. -/
def contains (m : Entries κ ν) (key : κ) : Bool := (m.get? key).isSome

/-- The keys that have a value. -/
def keys (m : Entries κ ν) : List κ := m.toList.map (·.1)

/-- The number of entries. -/
def size (m : Entries κ ν) : Nat := m.toList.length

/-- Only the entries whose key satisfies `p`. -/
def filterKeys (m : Entries κ ν) (p : κ → Bool) : Entries κ ν :=
  ⟨m.toList.filter fun entry => p entry.1, m.nodup.sublist (List.filter_sublist.map _)⟩

/-- The map without the entry of a key. -/
def erase (m : Entries κ ν) (key : κ) : Entries κ ν := m.filterKeys fun k => decide (k ≠ key)

/-- The map with the value of a key put in place of what it had. -/
def set (m : Entries κ ν) (key : κ) (value : ν) : Entries κ ν where
  toList := (key, value) :: (m.erase key).toList
  nodup := by
    rw [List.map_cons, List.nodup_cons]
    refine ⟨?_, (m.erase key).nodup⟩
    simp [erase, filterKeys]

/-! ## The view -/

@[simp] theorem get?_empty (key : κ) : (empty : Entries κ ν).get? key = none := rfl

theorem lookup_filter (p : κ → Bool) (key : κ) (entries : List (κ × ν)) :
    lookup key (entries.filter fun entry => p entry.1) =
      if p key then lookup key entries else none := by
  induction entries with
  | nil => simp [lookup]
  | cons entry rest ih =>
    obtain ⟨k, v⟩ := entry
    by_cases hk : k = key
    · subst hk
      by_cases hp : p k <;> simp [lookup, hp, ih]
    · by_cases hp : p k <;> simp [lookup, hp, hk, ih]

@[simp] theorem get?_filterKeys (m : Entries κ ν) (p : κ → Bool) (key : κ) :
    (m.filterKeys p).get? key = if p key then m.get? key else none :=
  lookup_filter p key m.toList

@[simp] theorem get?_erase (m : Entries κ ν) (key other : κ) :
    (m.erase key).get? other = if other = key then none else m.get? other := by
  by_cases h : other = key <;> simp [erase, h]

@[simp] theorem get?_set (m : Entries κ ν) (key other : κ) (value : ν) :
    (m.set key value).get? other = if other = key then some value else m.get? other := by
  by_cases h : other = key
  · subst h
    simp [get?, set, lookup]
  · have := get?_erase m key other
    rw [if_neg h] at this
    simpa [get?, set, lookup, h, Ne.symm h] using this

theorem mem_of_lookup {key : κ} {value : ν} {entries : List (κ × ν)}
    (h : lookup key entries = some value) : (key, value) ∈ entries := by
  induction entries with
  | nil => cases h
  | cons entry rest ih =>
    obtain ⟨k, v⟩ := entry
    by_cases hk : k = key
    · subst hk
      simp only [lookup, if_true, Option.some.injEq] at h
      simp [h]
    · rw [lookup, if_neg hk] at h
      exact List.mem_cons_of_mem _ (ih h)

theorem mem_toList_of_get? {m : Entries κ ν} {key : κ} {value : ν}
    (h : m.get? key = some value) : (key, value) ∈ m.toList := mem_of_lookup h

theorem lookup_of_mem {key : κ} {value : ν} {entries : List (κ × ν)}
    (hnodup : (entries.map (·.1)).Nodup) (h : (key, value) ∈ entries) :
    lookup key entries = some value := by
  induction entries with
  | nil => cases h
  | cons entry rest ih =>
    obtain ⟨k, v⟩ := entry
    obtain ⟨hk, hrest⟩ := List.nodup_cons.mp hnodup
    rcases List.mem_cons.mp h with h | h
    · obtain ⟨rfl, rfl⟩ := Prod.mk.inj h
      exact if_pos rfl
    · have hne : k ≠ key := by
        rintro rfl
        exact hk (List.mem_map.mpr ⟨_, h, rfl⟩)
      rw [lookup, if_neg hne]
      exact ih hrest h

theorem get?_eq_some_iff {m : Entries κ ν} {key : κ} {value : ν} :
    m.get? key = some value ↔ (key, value) ∈ m.toList :=
  ⟨mem_toList_of_get?, lookup_of_mem m.nodup⟩

theorem isSome_lookup {key : κ} {entries : List (κ × ν)} :
    (lookup key entries).isSome ↔ key ∈ entries.map (·.1) := by
  induction entries with
  | nil => simp [lookup]
  | cons entry rest ih =>
    obtain ⟨k, v⟩ := entry
    by_cases hk : k = key
    · simp [lookup, hk]
    · simp [lookup, hk, ih, Ne.symm hk]

theorem mem_keys {m : Entries κ ν} {key : κ} : key ∈ m.keys ↔ m.contains key = true :=
  isSome_lookup.symm

theorem contains_eq_false {m : Entries κ ν} {key : κ} :
    m.contains key = false ↔ m.get? key = none := by
  simp [contains]

theorem contains_of_get? {m : Entries κ ν} {key : κ} {value : ν} (h : m.get? key = some value) :
    m.contains key = true := by
  simp [contains, h]

/-- Erasing a key that has no value leaves a map as it is. -/
theorem erase_of_absent {m : Entries κ ν} {key : κ}
    (h : m.contains key = false) : m.erase key = m := by
  have habsent : ∀ entry ∈ m.toList, decide (entry.1 ≠ key) = true := by
    rintro entry hmem
    refine decide_eq_true fun heq => ?_
    have hkey : key ∈ m.keys := List.mem_map.mpr ⟨entry, hmem, heq⟩
    rw [mem_keys, h] at hkey
    cases hkey
  obtain ⟨entries, hnodup⟩ := m
  simp only [erase, filterKeys, mk.injEq]
  exact List.filter_eq_self.mpr habsent

end Entries

end ComputedFields
