import ComputedFields.Proofs.Schema

/-!
# Names of fields in formulas

The formulas of a table find every field of the table, and every field behind its links, under its
name.
-/

namespace ComputedFields

/-- A resolver gives a field a name that leads back to it. -/
def Resolver.Names (r : Resolver) (f : FieldId) : Prop :=
  ∃ name, r.fieldName f = some name ∧ Text.Trimmed name ∧ r.resolve name = some f

/-- A resolver gives a link field and a field behind it names that lead back to them. -/
def Resolver.Follows (r : Resolver) (link f : FieldId) : Prop :=
  r.Names link ∧ r.isLink link = true ∧
    ∃ name, r.fieldName f = some name ∧ Text.Trimmed name ∧ r.resolveLinked link name = some f

/-- Every field that a resolver finds has a name that leads back to it. -/
structure Resolver.Faithful (r : Resolver) : Prop where
  names : ∀ {name f}, r.resolve name = some f → r.Names f
  follows : ∀ {name link name' f}, r.resolve name = some link → r.isLink link = true →
    r.resolveLinked link name' = some f → r.Follows link f

namespace Schema

variable {s : Schema} {table : TableId}

/-- A field of a table is found under its name by the formulas of the table. -/
theorem Named.names (h : s.Named) {x : Field} (hx : x ∈ s.fieldsIn table) :
    (s.resolver table).Names x.id := by
  have hmem : x ∈ s.fields := (List.mem_filter.mp hx).1
  refine ⟨x.name, ?_, h.trimmed x hmem, ?_⟩
  · show (s.field? x.id).map (·.name) = some x.name
    rw [h.field?_id hmem]
    rfl
  · show (s.fieldByName? table x.name).map (·.id) = some x.id
    rw [h.fieldByName?_name hx]
    rfl

/-- A field of the table that a link field leads to is found under both their names. -/
theorem Named.follows (h : s.Named) {x y : Field} {target : TableId} (hx : x ∈ s.fieldsIn table)
    (hlink : x.kind = .link target) (hy : y ∈ s.fieldsIn target) :
    (s.resolver table).Follows x.id y.id := by
  have htarget : s.linkTarget? x.id = some target := by
    rw [linkTarget?, h.field?_id (List.mem_filter.mp hx).1, Option.bind_some, hlink]
    rfl
  have hmem : y ∈ s.fields := (List.mem_filter.mp hy).1
  refine ⟨h.names hx, ?_, y.name, ?_, h.trimmed y hmem, ?_⟩
  · show (s.linkTarget? x.id).isSome = true
    rw [htarget]
    rfl
  · show (s.field? y.id).map (·.name) = some y.name
    rw [h.field?_id hmem]
    rfl
  · show ((s.linkTarget? x.id).bind fun target =>
      (s.fieldByName? target y.name).map (·.id)) = some y.id
    rw [htarget, Option.bind_some, h.fieldByName?_name hy]
    rfl

/-- Whatever the formulas of a table find has a name that leads back to it. -/
theorem Named.faithful (h : s.Named) (table : TableId) : (s.resolver table).Faithful where
  names {name f} hresolve := by
    obtain ⟨x, hx, rfl⟩ := Option.map_eq_some_iff.mp hresolve
    exact h.names (fieldByName?_some hx).1
  follows {name link name' f} hresolve hlink hremote := by
    obtain ⟨x, hx, rfl⟩ := Option.map_eq_some_iff.mp hresolve
    obtain ⟨target, htarget, hfield⟩ := Option.bind_eq_some_iff.mp hremote
    obtain ⟨y, hy, rfl⟩ := Option.map_eq_some_iff.mp hfield
    have hxmem := (fieldByName?_some hx).1
    have hkind := kind_of_linkTarget? (h.field?_id (List.mem_filter.mp hxmem).1) htarget
    exact h.follows hxmem hkind (fieldByName?_some hy).1

end Schema

end ComputedFields
