import ComputedFields.Proofs.Formula.Naming
import ComputedFields.Proofs.Steps
import ComputedFields.Schema.Indexed

/-!
# The tables of a schema

The list of fields, the index into it and the counter agree with one another after any additions,
whichever of them are refused: every field is found under the number that its creation returned, and
the formulas of each table can name its fields and those behind its links.
-/

namespace ComputedFields.IndexedSchema

open Schema (Addition)

variable {s : IndexedSchema} {table : TableId} {name : String} {kind : FieldKind}

/-! ## Tables that agree -/

/-- Tables carry their numbers, the index leads from each number to the field in that place and to
nothing else, and the counter is the number of fields. -/
structure Consistent (s : IndexedSchema) : Prop where
  tables : ∀ (i : Nat) (t : TableId × String), s.tables[i]? = some t → t.1 = ⟨i⟩
  positions : ∀ f, s.positions.get? f = if f.index < s.fields.length then some f.index else none
  nextField : s.nextField = s.fields.length

theorem Consistent.empty : empty.Consistent where
  tables := fun i t h => by simp [IndexedSchema.empty] at h
  positions := fun _ => rfl
  nextField := rfl

/-- The schema that the tables hold. -/
def schema (s : IndexedSchema) : Schema := ⟨s.tables.map (·.2), s.fields⟩

theorem find?_eq_getElem? {tables : List (TableId × String)}
    (h : ∀ (i : Nat) (t : TableId × String), tables[i]? = some t → t.1 = ⟨i⟩) (table : TableId) :
    (tables.find? fun t => t.1 = table) = tables[table.index]? := by
  cases hfind : tables.find? fun t => t.1 = table with
  | some t =>
    obtain ⟨i, hi⟩ := List.mem_iff_getElem?.mp (List.mem_of_find?_eq_some hfind)
    have htable : t.1 = table := by simpa using List.find?_some hfind
    rw [← htable, h i t hi, hi]
  | none =>
    refine (List.getElem?_eq_none_iff.mpr (Nat.le_of_not_lt fun hlt => ?_)).symm
    have htable := h table.index _ (List.getElem?_eq_getElem hlt)
    have hne := List.find?_eq_none.mp hfind _ (List.getElem_mem hlt)
    rw [htable] at hne
    exact hne (decide_eq_true rfl)

theorem Consistent.tableName? (h : s.Consistent) : s.tableName? = s.schema.tableName? := by
  funext table
  rw [IndexedSchema.tableName?, find?_eq_getElem? h.tables, Schema.tableName?, schema,
    List.getElem?_map]

theorem Consistent.field? (h : s.Consistent) : s.field? = s.schema.field? := by
  funext f
  rw [IndexedSchema.field?, h.positions, Schema.field?, schema]
  split
  · rfl
  · rename_i hlast
    exact (List.getElem?_eq_none (Nat.le_of_not_lt hlast)).symm

theorem Consistent.linkTarget? (h : s.Consistent) : s.linkTarget? = s.schema.linkTarget? := by
  funext f
  rw [IndexedSchema.linkTarget?, Schema.linkTarget?, h.field?]

theorem Consistent.resolver (h : s.Consistent) (table : TableId) :
    s.resolver table = s.schema.resolver table := by
  rw [IndexedSchema.resolver, Schema.resolver, h.field?, h.linkTarget?]
  rfl

/-! ## Additions -/

theorem Consistent.addTable (h : s.Consistent) (name : String) :
    ∃ s', (addTable name).run s = .ok (s.schema.addTable name).2 s' ∧
      s'.schema = (s.schema.addTable name).1 ∧ s'.Consistent := by
  refine ⟨{ s with tables := s.tables ++ [(⟨s.tables.length⟩, name)] }, ?_, ?_, ?_,
    h.positions, h.nextField⟩
  · simp [IndexedSchema.addTable, Schema.addTable, schema]
  · simp [Schema.addTable, schema]
  · intro i t ht
    rw [List.getElem?_append] at ht
    split at ht
    · exact h.tables i t ht
    · rename_i hi
      obtain ⟨hlast, rfl⟩ : i - s.tables.length = 0 ∧ (⟨s.tables.length⟩, name) = t := by
        simpa [List.getElem?_singleton] using ht
      rw [show i = s.tables.length by omega]

/-- A field that is written down is found in the place of its number. -/
theorem Consistent.writeField (h : s.Consistent) (table : TableId) (name : String)
    (kind : FieldKind) :
    ∃ s', (writeField table name kind).run s = .ok ⟨s.fields.length⟩ s' ∧
      s'.schema = { s.schema with
        fields := s.fields ++ [⟨⟨s.fields.length⟩, table, name, kind⟩] } ∧ s'.Consistent := by
  refine ⟨⟨s.tables, s.fields ++ [⟨⟨s.fields.length⟩, table, name, kind⟩],
    s.positions.set ⟨s.fields.length⟩ s.fields.length, s.fields.length + 1⟩, ?_, rfl, h.tables,
    fun f => ?_, by simp⟩
  · simp [IndexedSchema.writeField, h.nextField]
  · rw [Entries.get?_set, h.positions, List.length_append, List.length_singleton]
    by_cases hf : f = ⟨s.fields.length⟩
    · simp [hf]
    · have hne : f.index ≠ s.fields.length := fun heq => hf (congrArg FieldId.mk heq)
      rw [if_neg hf]
      exact if_congr (by omega) rfl rfl

theorem Consistent.checkTables (h : s.Consistent) (table : TableId) (kind : FieldKind) :
    checkTables table kind s = match s.schema.missingTable? table kind with
      | some missing => .error (.unknownTable missing)
      | none => .ok ⟨⟩ := by
  have hcheck (t : TableId) : checkTable t s =
      if (s.schema.tableName? t).isSome then .ok ⟨⟩ else .error (.unknownTable t) := by
    rw [checkTable, h.tableName?]
  rw [Schema.missingTable?]
  cases kind with
  | link target =>
    show (checkTable table s >>= fun _ => checkTable target s) = _
    rw [hcheck, hcheck]
    cases htable : s.schema.tableName? table <;> cases htarget : s.schema.tableName? target <;>
      simp [FieldKind.target?, htable, htarget, bind, Except.bind]
  | plain | formula =>
    show (checkTable table s >>= fun _ => pure PUnit.unit) = _
    rw [hcheck]
    cases htable : s.schema.tableName? table <;>
      simp [FieldKind.target?, htable, bind, Except.bind, pure, Except.pure]

/-- Adding a field is refused with nothing written, or does what it does to the schema. -/
theorem Consistent.addField (h : s.Consistent) (table : TableId) (name : String)
    (kind : FieldKind) :
    (∃ err, s.schema.addField table name kind = .error err ∧
        (addField table name kind).run s = .error err s) ∨
      ∃ f s', s.schema.addField table name kind = .ok (s'.schema, f) ∧
        (addField table name kind).run s = .ok f s' ∧ s'.Consistent := by
  have htables := h.checkTables table kind
  have hname : checkName table (Text.trim name) s =
      if (Text.trim name).isEmpty || Schema.maxNameBytes < (Text.trim name).utf8ByteSize then
        .error (.invalidFieldName (Text.trim name))
      else if (s.schema.fieldByName? table (Text.trim name)).isSome then
        .error (.duplicateFieldName table (Text.trim name))
      else .ok ⟨⟩ := rfl
  rw [Schema.addField]
  cases hmissing : s.schema.missingTable? table kind with
  | some missing =>
    rw [hmissing] at htables
    exact .inl ⟨_, rfl, Steps.run_look_of_error htables⟩
  | none =>
    rw [hmissing] at htables
    by_cases hlength : (Text.trim name).isEmpty ||
        Schema.maxNameBytes < (Text.trim name).utf8ByteSize
    · rw [if_pos hlength] at hname
      exact .inl ⟨_, if_pos hlength,
        (Steps.run_look_of_ok htables).trans (Steps.run_look_of_error hname)⟩
    · rw [if_neg hlength] at hname
      by_cases hused : (s.schema.fieldByName? table (Text.trim name)).isSome
      · rw [if_pos hused] at hname
        exact .inl ⟨_, (if_neg hlength).trans (if_pos hused),
          (Steps.run_look_of_ok htables).trans (Steps.run_look_of_error hname)⟩
      · rw [if_neg hused] at hname
        obtain ⟨s', hwrite, hschema, hs'⟩ := h.writeField table (Text.trim name) kind
        refine .inr ⟨⟨s.fields.length⟩, s', ?_, ?_, hs'⟩
        · exact (if_neg hlength).trans ((if_neg hused).trans (by rw [hschema]; rfl))
        · exact (Steps.run_look_of_ok htables).trans ((Steps.run_look_of_ok hname).trans hwrite)

/-! ## Schemas that additions make -/

/-- The tables after some additions, one after the other. Each leaves what its steps have written,
whether it is refused or not. -/
def grown (s : IndexedSchema) : List Addition → IndexedSchema
  | [] => s
  | .table name :: later => ((addTable name).after s).grown later
  | .field table name kind :: later => ((addField table name kind).after s).grown later

/-- The fields that additions create, each with the number that its creation returned, the table and
the kind that it was asked for, and the name that it was given, trimmed. -/
def created (s : IndexedSchema) : List Addition → List Field
  | [] => []
  | .table name :: later => ((addTable name).after s).created later
  | .field table name kind :: later =>
    match (addField table name kind).run s with
    | .ok f s' => ⟨f, table, Text.trim name, kind⟩ :: s'.created later
    | .error _ s' => s'.created later

/-- Additions keep the tables in agreement, and do to them what they do to the schema. -/
theorem Consistent.grown (h : s.Consistent) (additions : List Addition) :
    (s.grown additions).Consistent ∧ (s.grown additions).schema = s.schema.grown additions ∧
      s.created additions = s.schema.created additions := by
  induction additions generalizing s with
  | nil => exact ⟨h, rfl, rfl⟩
  | cons addition later ih =>
    cases addition with
    | table name =>
      obtain ⟨s', hrun, hschema, hs'⟩ := h.addTable name
      have hafter : (IndexedSchema.addTable name).after s = s' := by rw [Steps.after, hrun]
      rw [IndexedSchema.grown, created, Schema.grown_cons, Schema.add, Schema.created, hafter,
        ← hschema]
      exact ih hs'
    | field table name kind =>
      rw [IndexedSchema.grown, created, Schema.grown_cons, Schema.add, Schema.created, Steps.after]
      rcases h.addField table name kind with ⟨err, hadd, hrun⟩ | ⟨f, s', hadd, hrun, hs'⟩
      · rw [hadd, hrun]
        exact ih h
      · rw [hadd, hrun]
        exact ⟨(ih hs').1, (ih hs').2.1, congrArg _ (ih hs').2.2⟩

/-- Names are trimmed, short and distinct within a table; fields belong and link to tables that
exist; and what a resolver calls a field it finds under that name, in its table and behind the links
of its table. -/
structure Legible (s : IndexedSchema) : Prop where
  trimmed : ∀ x ∈ s.fields, Text.Trimmed x.name
  short : ∀ x ∈ s.fields, x.name.utf8ByteSize ≤ 255
  distinct : ∀ table, ((s.fieldsIn table).map (·.name)).Nodup
  owned : ∀ x ∈ s.fields, (s.tableName? x.table).isSome = true
  linked : ∀ x ∈ s.fields, ∀ target, x.kind = .link target →
    (s.tableName? target).isSome = true
  resolve : ∀ table, ∀ x ∈ s.fieldsIn table,
    ((s.resolver table).fieldName x.id).bind (s.resolver table).resolve = some x.id
  resolveLinked : ∀ table, ∀ x ∈ s.fieldsIn table, ∀ target, x.kind = .link target →
    ∀ y ∈ s.fieldsIn target,
      ((s.resolver table).fieldName y.id).bind ((s.resolver table).resolveLinked x.id) = some y.id

theorem Consistent.legible (h : s.Consistent) (hbuilt : s.schema.Built) : s.Legible where
  trimmed := hbuilt.named.trimmed
  short := hbuilt.rooted.short
  distinct := hbuilt.named.nodup_names
  owned := by
    rw [h.tableName?]
    exact hbuilt.rooted.owned
  linked := by
    rw [h.tableName?]
    exact hbuilt.rooted.linked
  resolve table x hx := by
    obtain ⟨name, hname, -, hresolve⟩ := hbuilt.named.names hx
    rw [h.resolver, hname, Option.bind_some, hresolve]
  resolveLinked table x hx target hlink y hy := by
    obtain ⟨-, -, name, hname, -, hresolve⟩ := hbuilt.named.follows hx hlink hy
    rw [h.resolver, hname, Option.bind_some, hresolve]

/-- The fields that any additions to the empty schema create are numbered from zero on, and under
its number each is found as it was created; the counter and the index go with the list of fields; an
addition that is refused changes nothing; and the formulas of each table can name its fields and
those behind its links. -/
theorem additions_legible (additions : List Addition) :
    (empty.created additions).map (·.id) =
      (List.range (empty.created additions).length).map FieldId.mk ∧
    (empty.grown additions).fields = empty.created additions ∧
    (∀ i, (empty.grown additions).field? ⟨i⟩ = (empty.created additions)[i]?) ∧
    (empty.grown additions).nextField = (empty.grown additions).fields.length ∧
    (∀ f i, (empty.grown additions).positions.get? f = some i →
      ∃ x, (empty.grown additions).fields[i]? = some x ∧ x.id = f) ∧
    (∀ table name kind err s',
      (addField table name kind).run (empty.grown additions) = .error err s' →
        s' = empty.grown additions) ∧
    (empty.grown additions).Legible := by
  obtain ⟨h, hschema, hcreated⟩ := Consistent.empty.grown additions
  have hbuilt : (empty.grown additions).schema.Built := by
    rw [hschema]
    exact Schema.Built.empty.grown additions
  have hfields : (empty.grown additions).fields = empty.created additions := by
    rw [hcreated]
    exact (congrArg Schema.fields hschema).trans (Schema.empty.fields_grown_eq additions)
  refine ⟨?_, hfields, fun i => ?_, h.nextField, fun f i hposition => ?_,
    fun table name kind err s' hrun => ?_, h.legible hbuilt⟩
  · rw [← hfields]
    exact hbuilt.named.fieldIds_eq
  · rw [h.field?, ← hfields]
    rfl
  · rw [h.positions] at hposition
    obtain ⟨hlt, hindex⟩ := Option.ite_none_right_eq_some.mp hposition
    obtain rfl := Option.some.inj hindex
    have hget := List.getElem?_eq_getElem hlt
    exact ⟨_, hget, hbuilt.named.ids f.index _ hget⟩
  · rcases h.addField table name kind with ⟨err', -, hrun'⟩ | ⟨f, s'', -, hrun', -⟩
    · rw [hrun'] at hrun
      cases hrun
      rfl
    · rw [hrun'] at hrun
      cases hrun

/-- A name that differs by blanks alone is in use, and no number is lost over it. -/
example : empty.created [.table "People", .field ⟨0⟩ "Name" .plain, .field ⟨0⟩ " Name " .formula,
    .field ⟨0⟩ "Friends" (.link ⟨0⟩)] =
      [⟨⟨0⟩, ⟨0⟩, "Name", .plain⟩, ⟨⟨1⟩, ⟨0⟩, "Friends", .link ⟨0⟩⟩] := by decide +kernel

end ComputedFields.IndexedSchema
