import ComputedFields.Proofs.Graph.Acyclic

/-!
# Edits of a graph

What a graph comes to by edits, accepted or refused, in any order. Its two tables stay each
other's mirror, what a field reads is what was last accepted for it, there is no cycle, and a
field that has a place in the order keeps it.
-/

namespace ComputedFields

open Relation

namespace DependencyGraph

variable {g g' : DependencyGraph} {f x d p : FieldId} {fs : List FieldId}
  {references : List Reference} {diff : DependencyDiff}

/-! ## Edits -/

/-- An edit of a graph. -/
inductive Edit where
  | register (f : FieldId)
  | setReads (f : FieldId) (references : List Reference)
  | removeReads (f : FieldId)

/-- The graph after an edit; one that is refused changes nothing. -/
def edit (g : DependencyGraph) : Edit → DependencyGraph
  | .register f => g.register f
  | .setReads f references =>
    match g.setReads f references with
    | .ok (g', _) => g'
    | .error _ => g
  | .removeReads f => (g.removeReads f).1

/-- The graph that edits make of the empty one, the latest edit first. -/
def edited : List Edit → DependencyGraph
  | [] => empty
  | latest :: earlier => (edited earlier).edit latest

/-- The references last accepted for a field in the course of some edits, the latest edit first;
none if there are none or they have been removed since. -/
def accepted (f : FieldId) : List Edit → Option (List Reference)
  | [] => none
  | .register _ :: earlier => accepted f earlier
  | .setReads x references :: earlier =>
    if x = f ∧ ((edited earlier).setReads x references).isOk then some references
    else accepted f earlier
  | .removeReads x :: earlier => if x = f then none else accepted f earlier

/-- What holds after an edit if it holds before, whether the edit is accepted or not. -/
theorem edit_cases {P : DependencyGraph → Prop} (hsame : P g)
    (hregister : ∀ f, P (g.register f))
    (hset : ∀ f references g' diff, g.setReads f references = .ok (g', diff) → P g')
    (hremove : ∀ f, P (g.removeReads f).1) (e : Edit) : P (g.edit e) := by
  cases e with
  | register f => exact hregister f
  | setReads f references =>
    rw [edit]
    split
    · rename_i hok
      exact hset f references _ _ hok
    · exact hsame
  | removeReads f => exact hremove f

/-! ## The order of registration -/

theorem order_register (g : DependencyGraph) (f : FieldId) :
    (g.register f).order = if f ∈ g.order then g.order else g.order ++ [f] := by
  rw [register]
  by_cases hf : f ∈ g.order <;> simp [hf]

theorem mem_order_register : x ∈ (g.register f).order ↔ x ∈ g.order ∨ x = f := by
  rw [order_register]
  by_cases hf : f ∈ g.order
  · rw [if_pos hf]
    refine ⟨.inl, ?_⟩
    rintro (hx | rfl)
    · exact hx
    · exact hf
  · rw [if_neg hf, List.mem_append, List.mem_singleton]

theorem register_of_mem (h : f ∈ g.order) : g.register f = g := by
  rw [register, if_pos (List.contains_iff_mem.mpr h)]

theorem prefix_order_register (g : DependencyGraph) (f : FieldId) :
    g.order <+: (g.register f).order := by
  rw [order_register]
  split
  · exact List.prefix_refl _
  · exact List.prefix_append _ _

theorem nodup_order_register (h : g.order.Nodup) (f : FieldId) : (g.register f).order.Nodup := by
  rw [order_register]
  split
  · exact h
  · rename_i hf
    refine List.nodup_append.mpr ⟨h, List.nodup_singleton f, ?_⟩
    rintro a ha b hb rfl
    exact hf (List.mem_singleton.mp hb ▸ ha)

theorem mem_order_foldl_register :
    x ∈ (fs.foldl register g).order ↔ x ∈ g.order ∨ x ∈ fs := by
  induction fs generalizing g with
  | nil => simp
  | cons f fs ih => rw [List.foldl_cons, ih, mem_order_register, List.mem_cons, or_assoc]

theorem prefix_order_foldl_register (g : DependencyGraph) (fs : List FieldId) :
    g.order <+: (fs.foldl register g).order := by
  induction fs generalizing g with
  | nil => exact List.prefix_refl _
  | cons f fs ih => exact (prefix_order_register g f).trans (ih (g.register f))

/-- Registering new fields puts them at the end, as they come. -/
theorem order_foldl_register (h : (g.order ++ fs).Nodup) :
    (fs.foldl register g).order = g.order ++ fs := by
  induction fs generalizing g with
  | nil => exact (List.append_nil _).symm
  | cons f fs ih =>
    have hnew : f ∉ g.order := fun hf => (List.nodup_append.mp h).2.2 f hf f (by simp) rfl
    have horder : (g.register f).order = g.order ++ [f] := by rw [order_register, if_neg hnew]
    rw [List.foldl_cons, ih (by simpa [horder] using h), horder]
    simp

theorem foldl_register_of_mem (h : ∀ f ∈ fs, f ∈ g.order) : fs.foldl register g = g := by
  induction fs with
  | nil => rfl
  | cons f fs ih =>
    obtain ⟨hf, hfs⟩ := List.forall_mem_cons.mp h
    rw [List.foldl_cons, register_of_mem hf, ih hfs]

theorem nodup_order_foldl_register (h : g.order.Nodup) (fs : List FieldId) :
    (fs.foldl register g).order.Nodup := by
  induction fs generalizing g with
  | nil => exact h
  | cons f fs ih => exact ih (nodup_order_register h f)

/-- The graph in which an accepted edit has registered the field and what it comes to read. -/
def registered (g : DependencyGraph) (f : FieldId) (references : List Reference) :
    DependencyGraph :=
  (g.sorted ((edgesOf references).map (·.1))).foldl register (g.register f)

theorem order_setReads (h : g.setReads f references = .ok (g', diff)) :
    g'.order = (g.registered f references).order := by
  rw [setReads] at h
  simp only at h
  split at h
  · cases h
  · cases h
    rfl

theorem mem_order_registered : x ∈ (g.registered f references).order ↔
    (x ∈ g.order ∨ x = f) ∨ ∃ edge ∈ edgesOf references, edge.1 = x := by
  rw [registered, mem_order_foldl_register, mem_order_register, mem_sorted, List.mem_map]

theorem prefix_order_setReads (h : g.setReads f references = .ok (g', diff)) :
    g.order <+: g'.order := by
  rw [order_setReads h]
  exact (prefix_order_register g f).trans (prefix_order_foldl_register _ _)

/-- An edit of fields that have places leaves the order as it is. -/
theorem order_setReads_of_mem (h : g.setReads f references = .ok (g', diff)) (hf : f ∈ g.order)
    (hread : ∀ edge ∈ edgesOf references, edge.1 ∈ g.order) : g'.order = g.order := by
  rw [order_setReads h, registered, register_of_mem hf, foldl_register_of_mem]
  intro x hx
  obtain ⟨edge, hedge, rfl⟩ := List.mem_map.mp (mem_sorted.mp hx)
  exact hread edge hedge

/-- A field that has a place keeps it when others are appended. -/
theorem slot_of_appended (h : g.order <+: g'.order) (hx : x ∈ g.order) :
    x ∈ g'.order ∧ g'.slot x = g.slot x := by
  obtain ⟨rest, hrest⟩ := h
  refine ⟨hrest ▸ List.mem_append_left rest hx, ?_⟩
  rw [slot, slot, ← hrest, List.idxOf_append_of_mem hx]

theorem slot_lt (h : x ∈ g.order) : g.slot x < g.order.length := List.idxOf_lt_length_of_mem h

theorem slot_inj (h : x ∈ g.order) : g.slot x = g.slot p ↔ x = p := List.idxOf_inj h

/-- No edit takes a place away or gives it to another field. -/
theorem prefix_order_edit (g : DependencyGraph) (e : Edit) : g.order <+: (g.edit e).order :=
  edit_cases (P := fun g' => g.order <+: g'.order) (List.prefix_refl _)
    (fun f => prefix_order_register g f) (fun _ _ _ _ hok => prefix_order_setReads hok)
    (fun _ => List.prefix_refl _) e

theorem prefix_order_edited (later edits : List Edit) :
    (edited edits).order <+: (edited (later ++ edits)).order := by
  induction later with
  | nil => exact List.prefix_refl _
  | cons e later ih => exact ih.trans (prefix_order_edit _ e)

/-! ## Readers in order -/

/-- A table lists the readers of every field in order, each once. -/
def Ascending (readers : Entries FieldId (List Edge)) : Prop :=
  ∀ p, (readersOf readers p).Pairwise (compareEdges · · = .lt)

theorem Ascending.addReader {readers : Entries FieldId (List Edge)} (h : Ascending readers)
    (edge : Edge) : Ascending (addReader f readers edge) := by
  intro p
  by_cases hp : p = edge.1
  · subst hp
    have hget : readersOf (DependencyGraph.addReader f readers edge) edge.1 =
        Ordered.insert compareEdges (f, edge.2) (readersOf readers edge.1) := by
      simp [readersOf, DependencyGraph.addReader]
    rw [hget]
    exact Ordered.pairwise_insert (h edge.1)
  · have hget : readersOf (DependencyGraph.addReader f readers edge) p = readersOf readers p := by
      simp [readersOf, DependencyGraph.addReader, hp]
    rw [hget]
    exact h p

theorem Ascending.dropReader {readers : Entries FieldId (List Edge)} (h : Ascending readers)
    (edge : Edge) : Ascending (dropReader f readers edge) := by
  intro p
  rw [readersOf_dropReader]
  split
  · exact (h edge.1).filter _
  · exact h p

theorem Ascending.foldl {step : Entries FieldId (List Edge) → Edge → Entries FieldId (List Edge)}
    (hstep : ∀ readers edge, Ascending readers → Ascending (step readers edge))
    {readers : Entries FieldId (List Edge)} (h : Ascending readers) (edges : List Edge) :
    Ascending (edges.foldl step readers) := by
  induction edges generalizing readers with
  | nil => exact h
  | cons edge edges ih => exact ih (hstep readers edge h)

/-! ## What edits keep -/

/-- A graph as edits make it: consistent, with one place for each registered field, places for all
fields at the ends of edges, and readers listed in order. -/
structure WellFormed (g : DependencyGraph) : Prop extends Consistent g where
  nodup : g.order.Nodup
  placed : ∀ d p, g.Reads d p → d ∈ g.order ∧ p ∈ g.order
  ascending : Ascending g.readers

theorem WellFormed.empty : empty.WellFormed where
  toConsistent := Consistent.empty
  nodup := List.nodup_nil
  placed := by
    rintro d p ⟨kind, hedge⟩
    cases hedge
  ascending := fun _ => List.Pairwise.nil

theorem reads_register_iff : (g.register f).Reads d p ↔ g.Reads d p := by
  simp [Reads, edgesFrom]

theorem WellFormed.register (h : g.WellFormed) (f : FieldId) : (g.register f).WellFormed where
  toConsistent := h.toConsistent.register f
  nodup := nodup_order_register h.nodup f
  placed := by
    intro d p hread
    obtain ⟨hd, hp⟩ := h.placed d p (reads_register_iff.mp hread)
    exact ⟨mem_order_register.mpr (.inl hd), mem_order_register.mpr (.inl hp)⟩
  ascending := by
    rw [readers_register]
    exact h.ascending

theorem WellFormed.foldl_register (h : g.WellFormed) (fs : List FieldId) :
    (fs.foldl DependencyGraph.register g).WellFormed := by
  induction fs generalizing g with
  | nil => exact h
  | cons f fs ih => exact ih (h.register f)

theorem WellFormed.setReads (h : g.WellFormed) (hok : g.setReads f references = .ok (g', diff)) :
    g'.WellFormed := by
  obtain ⟨-, hreads, hreaders⟩ := setReads_ok hok
  refine ⟨h.toConsistent.setReads hok, ?_, ?_, ?_⟩
  · rw [order_setReads hok]
    exact nodup_order_foldl_register (nodup_order_register h.nodup f) _
  · rintro d p ⟨kind, hedge⟩
    rw [order_setReads hok, mem_order_registered, mem_order_registered]
    rw [edgesFrom_of_reads_set hreads] at hedge
    split at hedge
    · rename_i hd
      exact ⟨.inl (.inr hd), .inr ⟨_, hedge, rfl⟩⟩
    · obtain ⟨hd, hp⟩ := h.placed d p ⟨kind, hedge⟩
      exact ⟨.inl (.inl hd), .inl (.inl hp)⟩
  · rw [hreaders]
    refine .foldl (fun _ edge hr => hr.addReader edge) ?_ _
    exact .foldl (fun _ edge hr => hr.dropReader edge) h.ascending _

theorem WellFormed.removeReads (h : g.WellFormed) (f : FieldId) :
    (g.removeReads f).1.WellFormed where
  toConsistent := h.toConsistent.removeReads f
  nodup := h.nodup
  placed := by
    rintro d p ⟨kind, hedge⟩
    rw [edgesFrom_removeReads] at hedge
    split at hedge
    · cases hedge
    · exact h.placed d p ⟨kind, hedge⟩
  ascending := .foldl (fun _ edge hr => hr.dropReader edge) h.ascending _

theorem WellFormed.edit (h : g.WellFormed) (e : Edit) : (g.edit e).WellFormed :=
  edit_cases h h.register (fun _ _ _ _ hok => h.setReads hok) h.removeReads e

theorem edited_wellFormed (edits : List Edit) : (edited edits).WellFormed := by
  induction edits with
  | nil => exact WellFormed.empty
  | cons e edits ih => exact ih.edit e

/-- What a field reads are the edges of the references last accepted for it. -/
theorem reads_edited (edits : List Edit) (f : FieldId) :
    (edited edits).reads.get? f = (accepted f edits).map edgesOf := by
  induction edits with
  | nil => rfl
  | cons e earlier ih =>
    cases e with
    | register x =>
      show ((edited earlier).register x).reads.get? f = (accepted f earlier).map edgesOf
      rw [reads_register, ih]
    | setReads x references =>
      rw [edited, edit, accepted]
      cases hset : (edited earlier).setReads x references with
      | error err => simpa [Except.isOk, Except.toBool] using ih
      | ok result =>
        obtain ⟨-, hreads, -⟩ := setReads_ok hset
        simp only [Except.isOk, Except.toBool, and_true]
        rw [hreads, Entries.get?_set]
        by_cases hx : x = f
        · rw [if_pos hx.symm, if_pos hx, Option.map_some]
        · rw [if_neg (Ne.symm hx), if_neg hx, ih]
    | removeReads x =>
      show ((edited earlier).reads.erase x).get? f = (accepted f (.removeReads x :: earlier)).map _
      rw [Entries.get?_erase, accepted]
      by_cases hx : x = f
      · rw [if_pos hx.symm, if_pos hx, Option.map_none]
      · rw [if_neg (Ne.symm hx), if_neg hx, ih]

end DependencyGraph

end ComputedFields
