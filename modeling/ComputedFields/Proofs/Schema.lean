import ComputedFields.Proofs.Text.Blank
import ComputedFields.Schema
import Mathlib.Data.List.Nodup

/-!
# Schemas

A schema that is made by adding tables and fields numbers its fields in order, keeps their names
trimmed, and has no name twice in one table; so every field of a table is found under its name.
What a schema says of a field it says after more fields have been added too.
-/

namespace ComputedFields.Schema

variable {s s' : Schema} {table : TableId} {f : FieldId} {name : String} {kind : FieldKind}

/-! ## Growing schemas -/

theorem addField_ok (h : s.addField table name kind = .ok (s', f)) :
    s' = { s with fields := s.fields ++ [⟨⟨s.fields.length⟩, table, Text.trim name, kind⟩] } ∧
      (Text.trim name).isEmpty = false ∧ s.fieldByName? table (Text.trim name) = none ∧
      f = ⟨s.fields.length⟩ ∧ s.missingTable? table kind = none ∧
      (Text.trim name).utf8ByteSize ≤ maxNameBytes := by
  rw [addField] at h
  split at h
  · cases h
  · rename_i htables
    split at h
    · cases h
    · rename_i hname
      split at h
      · cases h
      · rename_i hnew
        cases h
        rw [Bool.or_eq_true, not_or, Bool.not_eq_true, decide_eq_true_eq, Nat.not_lt] at hname
        exact ⟨rfl, hname.1, by simpa using hnew, rfl, htables, hname.2⟩

theorem field?_of_append {field : Field} {rest : List Field}
    (hfields : s'.fields = s.fields ++ rest) (h : s.field? f = some field) :
    s'.field? f = some field := by
  rw [field?] at h ⊢
  rw [hfields, List.getElem?_append_left (List.getElem?_eq_some_iff.mp h).1]
  exact h

theorem exists_of_isFormula (h : s.isFormula f = true) :
    ∃ field, s.field? f = some field ∧ field.kind = .formula := by
  rw [isFormula] at h
  split at h
  · rename_i field hfield
    exact ⟨field, hfield, by simpa using h⟩
  · cases h

theorem isFormula_of_field? {field : Field} (hfield : s.field? f = some field)
    (hkind : field.kind = .formula) : s.isFormula f = true := by
  simp [isFormula, hfield, hkind]

theorem isFormula_of_append {rest : List Field} (hfields : s'.fields = s.fields ++ rest)
    (h : s.isFormula f = true) : s'.isFormula f = true := by
  obtain ⟨field, hfield, hkind⟩ := exists_of_isFormula h
  exact isFormula_of_field? (field?_of_append hfields hfield) hkind

theorem linkTarget?_of_append {rest : List Field}
    (hfields : s'.fields = s.fields ++ rest) (h : s.linkTarget? f = some table) :
    s'.linkTarget? f = some table := by
  rw [linkTarget?, Option.bind_eq_some_iff] at h ⊢
  obtain ⟨field, hfield, hkind⟩ := h
  exact ⟨field, field?_of_append hfields hfield, hkind⟩

/-- A field belongs to a table. -/
def Owns (s : Schema) (table : TableId) (f : FieldId) : Prop :=
  (s.field? f).map (·.table) = some table

theorem Owns.of_append {rest : List Field} (hfields : s'.fields = s.fields ++ rest)
    (h : s.Owns table f) : s'.Owns table f := by
  obtain ⟨field, hfield, htable⟩ := Option.map_eq_some_iff.mp h
  exact Option.map_eq_some_iff.mpr ⟨field, field?_of_append hfields hfield, htable⟩

theorem kind_of_linkTarget? {field : Field} (hfield : s.field? f = some field)
    (h : s.linkTarget? f = some table) : field.kind = .link table := by
  rw [linkTarget?, hfield, Option.bind_some] at h
  cases hkind : field.kind with
  | link target =>
    rw [hkind] at h
    cases h
    rfl
  | _ =>
    rw [hkind] at h
    cases h

/-- A link field is no formula field. -/
theorem isFormula_of_linkTarget? (h : s.linkTarget? f = some table) :
    s.isFormula f = false := by
  rw [linkTarget?, Option.bind_eq_some_iff] at h
  obtain ⟨field, hfield, hkind⟩ := h
  have hne : field.kind ≠ .formula := by
    intro hformula
    rw [hformula] at hkind
    cases hkind
  simp [isFormula, hfield, hne]

/-! ## Additions -/

/-- A table or a field to add to a schema. -/
inductive Addition where
  | table (name : String)
  | field (table : TableId) (name : String) (kind : FieldKind)
deriving DecidableEq, Repr

/-- The schema after a table or a field is added. A field that is refused leaves it as it is. -/
def add (s : Schema) : Addition → Schema
  | .table name => (s.addTable name).1
  | .field table name kind =>
    match s.addField table name kind with
    | .ok (s', _) => s'
    | .error _ => s

/-- The schema after some additions, one after the other. -/
def grown (s : Schema) (additions : List Addition) : Schema := additions.foldl add s

/-- The fields that additions create, each with the number that its creation returned, the table and
the kind that it was asked for, and the name that it was given, trimmed. -/
def created (s : Schema) : List Addition → List Field
  | [] => []
  | .table name :: later => (s.addTable name).1.created later
  | .field table name kind :: later =>
    match s.addField table name kind with
    | .ok (s', f) => ⟨f, table, Text.trim name, kind⟩ :: s'.created later
    | .error _ => s.created later

theorem grown_cons (s : Schema) (addition : Addition) (later : List Addition) :
    s.grown (addition :: later) = (s.add addition).grown later := rfl

/-- The fields of a schema are those that have been created, in the order of their creation. -/
theorem fields_grown_eq (s : Schema) (additions : List Addition) :
    (s.grown additions).fields = s.fields ++ s.created additions := by
  induction additions generalizing s with
  | nil => exact (List.append_nil _).symm
  | cons addition later ih =>
    rw [grown_cons, ih]
    cases addition with
    | table name => rfl
    | field table name kind =>
      rw [add, created]
      split
      · rename_i s' f hok
        obtain ⟨rfl, -, -, rfl, -⟩ := addField_ok hok
        exact List.append_assoc _ _ _
      · rfl

/-- Fields are only ever added at the end. -/
theorem fields_grown (s : Schema) (additions : List Addition) :
    ∃ more, (s.grown additions).fields = s.fields ++ more :=
  ⟨_, s.fields_grown_eq additions⟩

/-! ## Schemas that can be made -/

/-- The schemas that are made by adding tables and fields. -/
inductive Built : Schema → Prop
  | empty : Built .empty
  | addTable {s : Schema} (h : Built s) (name : String) : Built (s.addTable name).1
  | addField {s s' : Schema} {table : TableId} {name : String} {kind : FieldKind} {f : FieldId}
      (h : Built s) (hok : s.addField table name kind = .ok (s', f)) : Built s'

theorem Built.grown (h : s.Built) (additions : List Addition) : (s.grown additions).Built := by
  induction additions generalizing s with
  | nil => exact h
  | cons addition later ih =>
    refine ih ?_
    cases addition with
    | table name => exact h.addTable name
    | field table name kind =>
      rw [add]
      split
      · rename_i s' f hok
        exact h.addField hok
      · exact h

/-- Fields are numbered in order, have trimmed names, and no two of a table share one. -/
structure Named (s : Schema) : Prop where
  ids : ∀ (i : Nat) (x : Field), s.fields[i]? = some x → x.id = ⟨i⟩
  trimmed : ∀ x ∈ s.fields, Text.Trimmed x.name
  unique : ∀ x ∈ s.fields, ∀ y ∈ s.fields, x.table = y.table → x.name = y.name → x = y

theorem Named.addField (h : s.Named) (hok : s.addField table name kind = .ok (s', f)) :
    s'.Named := by
  obtain ⟨rfl, hname, hnew, -⟩ := addField_ok hok
  -- the name was not in use in the table
  have hfresh : ∀ x ∈ s.fields, x.table = table → x.name ≠ Text.trim name := by
    intro x hx htable heq
    have := List.find?_eq_none.mp hnew x hx
    simp [htable, heq] at this
  refine ⟨?_, ?_, ?_⟩
  · intro i x hx
    rw [List.getElem?_append] at hx
    split at hx
    · exact h.ids i x hx
    · rename_i hi
      have hlast : i - s.fields.length = 0 := by
        have hlt := (List.getElem?_eq_some_iff.mp hx).1
        rw [List.length_singleton] at hlt
        omega
      rw [hlast] at hx
      cases hx
      rw [show i = s.fields.length by omega]
  · intro x hx
    rcases List.mem_append.mp hx with hx | hx
    · exact h.trimmed x hx
    · rw [List.mem_singleton.mp hx]
      exact Text.trimmed_trim hname
  · intro x hx y hy htable heq
    rcases List.mem_append.mp hx with hx | hx <;> rcases List.mem_append.mp hy with hy | hy
    · exact h.unique x hx y hy htable heq
    · rw [List.mem_singleton.mp hy] at htable heq
      exact absurd heq (hfresh x hx htable)
    · rw [List.mem_singleton.mp hx] at htable heq
      exact absurd heq.symm (hfresh y hy htable.symm)
    · rw [List.mem_singleton.mp hx, List.mem_singleton.mp hy]

theorem Built.named (h : s.Built) : s.Named := by
  induction h with
  | empty => exact ⟨by simp [Schema.empty], by simp [Schema.empty], by simp [Schema.empty]⟩
  | addTable h name ih => exact ⟨ih.ids, ih.trimmed, ih.unique⟩
  | addField h hok ih => exact ih.addField hok

theorem isSome_tableName? : (s.tableName? table).isSome = true ↔ table.index < s.tables.length := by
  simp [tableName?]

/-- Names are not too long, and fields belong and link to tables that exist. -/
structure Rooted (s : Schema) : Prop where
  short : ∀ x ∈ s.fields, x.name.utf8ByteSize ≤ maxNameBytes
  owned : ∀ x ∈ s.fields, (s.tableName? x.table).isSome = true
  linked : ∀ x ∈ s.fields, ∀ target, x.kind = .link target →
    (s.tableName? target).isSome = true

theorem Rooted.addTable (h : s.Rooted) (name : String) : (s.addTable name).1.Rooted := by
  have hmore : ∀ t, (s.tableName? t).isSome = true →
      ((s.addTable name).1.tableName? t).isSome = true := by
    intro t ht
    rw [isSome_tableName?] at ht ⊢
    exact Nat.lt_of_lt_of_le ht (by simp [Schema.addTable])
  exact ⟨h.short, fun x hx => hmore _ (h.owned x hx),
    fun x hx target hkind => hmore _ (h.linked x hx target hkind)⟩

theorem Rooted.addField (h : s.Rooted) (hok : s.addField table name kind = .ok (s', f)) :
    s'.Rooted := by
  obtain ⟨rfl, -, -, -, htables, hshort⟩ := addField_ok hok
  have hexists : ∀ t ∈ table :: kind.target?.toList, (s.tableName? t).isSome = true := by
    intro t ht
    simpa [Option.isSome_iff_ne_none] using List.find?_eq_none.mp htables t ht
  constructor
  · exact List.forall_mem_append.mpr ⟨h.short, List.forall_mem_singleton.mpr hshort⟩
  · refine List.forall_mem_append.mpr ⟨h.owned, List.forall_mem_singleton.mpr ?_⟩
    exact hexists table List.mem_cons_self
  · refine List.forall_mem_append.mpr ⟨h.linked, List.forall_mem_singleton.mpr ?_⟩
    rintro target rfl
    exact hexists target (by simp [FieldKind.target?])

theorem Built.rooted (h : s.Built) : s.Rooted := by
  induction h with
  | empty => exact ⟨by simp [Schema.empty], by simp [Schema.empty], by simp [Schema.empty]⟩
  | addTable h name ih => exact ih.addTable name
  | addField h hok ih => exact ih.addField hok

/-! ## Numbers of fields -/

theorem fieldIds_addField (h : s.addField table name kind = .ok (s', f)) :
    s'.fieldIds = s.fieldIds ++ [f] := by
  obtain ⟨rfl, -, -, rfl, -⟩ := addField_ok h
  simp [fieldIds]

theorem Named.mem_fieldIds (h : s.Named) {x : Field} (hx : s.field? f = some x) :
    f ∈ s.fieldIds :=
  List.mem_map.mpr ⟨x, List.mem_of_getElem? hx, h.ids f.index x hx⟩

theorem Owns.mem_fieldIds (howns : s.Owns table f) (h : s.Named) : f ∈ s.fieldIds := by
  obtain ⟨x, hx, -⟩ := Option.map_eq_some_iff.mp howns
  exact h.mem_fieldIds hx

/-- Fields are numbered from zero on. -/
theorem Named.fieldIds_eq (h : s.Named) :
    s.fieldIds = (List.range s.fields.length).map FieldId.mk := by
  refine List.ext_getElem (by simp [fieldIds]) fun i hi _ => ?_
  rw [fieldIds, List.length_map] at hi
  simp [fieldIds, h.ids i _ (List.getElem?_eq_getElem hi)]

/-- No two fields have one number. -/
theorem Named.nodup_fieldIds (h : s.Named) : s.fieldIds.Nodup := by
  rw [h.fieldIds_eq]
  exact List.pairwise_map.mpr (List.nodup_range.imp fun hne hab => hne (congrArg (·.index) hab))

/-- No two fields of a table have one name. -/
theorem Named.nodup_names (h : s.Named) (table : TableId) :
    ((s.fieldsIn table).map (·.name)).Nodup := by
  have hfields : (s.fieldsIn table).Nodup := h.nodup_fieldIds.of_map.filter _
  refine List.Nodup.map_on (fun x hx y hy hname => ?_) hfields
  obtain ⟨hx, hxtable⟩ := List.mem_filter.mp hx
  obtain ⟨hy, hytable⟩ := List.mem_filter.mp hy
  rw [decide_eq_true_eq] at hxtable hytable
  exact h.unique x hx y hy (hxtable.trans hytable.symm) hname

/-! ## Finding fields -/

theorem Named.field?_id (h : s.Named) {x : Field} (hx : x ∈ s.fields) : s.field? x.id = some x := by
  obtain ⟨i, hi⟩ := List.mem_iff_getElem?.mp hx
  rw [field?, h.ids i x hi]
  exact hi

theorem fieldByName?_some {x : Field} (h : s.fieldByName? table name = some x) :
    x ∈ s.fieldsIn table ∧ x.name = name := by
  have hfound := List.find?_some h
  rw [Bool.and_eq_true, decide_eq_true_eq, beq_iff_eq] at hfound
  exact ⟨List.mem_filter.mpr ⟨List.mem_of_find?_eq_some h, by simpa using hfound.1⟩, hfound.2⟩

theorem Named.fieldByName?_name (h : s.Named) {x : Field} (hx : x ∈ s.fieldsIn table) :
    s.fieldByName? table x.name = some x := by
  obtain ⟨hx, htable⟩ := List.mem_filter.mp hx
  have htable : x.table = table := by simpa using htable
  cases hfind : s.fieldByName? table x.name with
  | none =>
    have := List.find?_eq_none.mp hfind x hx
    simp [htable] at this
  | some y =>
    obtain ⟨hy, hname⟩ := fieldByName?_some hfind
    obtain ⟨hy, htable'⟩ := List.mem_filter.mp hy
    have htable' : y.table = table := by simpa using htable'
    rw [h.unique y hy x hx (htable'.trans htable.symm) hname]

end ComputedFields.Schema
