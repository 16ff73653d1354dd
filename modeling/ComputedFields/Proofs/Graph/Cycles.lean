import ComputedFields.Proofs.Graph.Edits

/-!
# Refused edits

An edit is refused exactly when it would close a cycle. The error then names such a cycle, and
nothing has changed. An accepted edit tells what the field began and ceased to read, in the order
of registration.
-/

namespace ComputedFields

open Relation

theorem mem_fieldsOf {references : List Reference} {p : FieldId} :
    p ∈ fieldsOf references ↔ ∃ kind, (p, kind) ∈ edgesOf references := by
  rw [fieldsOf, Ordered.mem_ofList, List.mem_flatMap]
  simp only [mem_edgesOf]
  constructor
  · rintro ⟨reference, hmem, hp⟩
    cases reference with
    | field f =>
      obtain rfl := List.mem_singleton.mp hp
      exact ⟨.direct, _, hmem, by simp [Reference.edges]⟩
    | linked link f =>
      rcases List.mem_cons.mp hp with rfl | hp
      · exact ⟨.direct, _, hmem, by simp [Reference.edges]⟩
      · obtain rfl := List.mem_singleton.mp hp
        exact ⟨.via link, _, hmem, by simp [Reference.edges]⟩
  · rintro ⟨kind, reference, hmem, hedge⟩
    refine ⟨reference, hmem, ?_⟩
    cases reference with
    | field f => simp_all [Reference.edges, Reference.fields]
    | linked link f =>
      simp only [Reference.edges, List.mem_cons, Prod.mk.injEq] at hedge
      simp only [Reference.fields, List.mem_cons]
      tauto

namespace DependencyGraph

variable {g g' : DependencyGraph} {f p a b : FieldId} {fs path : List FieldId}
  {references : List Reference} {diff : DependencyDiff}

/-! ## The path found -/

section Search

variable {next : FieldId → List FieldId} {goal : FieldId} {limit : Nat}
  {visited frontier all : List FieldId}

/-- A path from a frontier to a goal: each field on it leads to the one after it, the last one to
the goal, and no field comes twice, nor any that is to be passed over. -/
structure LeadsTo (next : FieldId → List FieldId) (goal : FieldId) (visited frontier : List FieldId)
    (path : List FieldId) : Prop where
  starts : ∃ first ∈ frontier, (path ++ [goal]).head? = some first
  chain : (path ++ [goal]).IsChain fun a b => b ∈ next a
  nodup : (goal :: path).Nodup
  fresh : ∀ x ∈ path, x ∉ visited

theorem subset_of_searchPath_ok (h : searchPath next goal limit visited frontier = .ok all) :
    visited ⊆ all := by
  fun_induction searchPath next goal limit visited frontier generalizing all with
  | case1 | case2 =>
    cases h
    exact List.Subset.refl _
  | case3 | case5 => cases h
  | case4 visited limit f rest hgoal hvisited ih => exact ih h
  | case6 visited limit f rest hgoal hvisited inner hinner ih₁ ih₂ =>
    exact fun x hx => ih₂ h (ih₁ hinner (List.mem_cons_of_mem f hx))

/-- A search that ends with a path has found one that leads to the goal. -/
theorem searchPath_error (h : searchPath next goal limit visited frontier = .error path) :
    LeadsTo next goal visited frontier path := by
  fun_induction searchPath next goal limit visited frontier generalizing path with
  | case1 | case2 => cases h
  | case3 visited limit rest =>
    cases h
    exact ⟨⟨goal, by simp, rfl⟩, List.IsChain.singleton goal, by simp, by simp⟩
  | case4 visited limit f rest hgoal hvisited ih =>
    obtain ⟨⟨first, hfirst, hhead⟩, hchain, hnodup, hfresh⟩ := ih h
    exact ⟨⟨first, List.mem_cons_of_mem f hfirst, hhead⟩, hchain, hnodup, hfresh⟩
  | case5 visited limit f rest hgoal hvisited inner hinner ih =>
    cases h
    have hnew : f ∉ visited := by simpa using hvisited
    -- the path goes on from the field, and passes over it
    obtain ⟨⟨first, hfirst, hhead⟩, hchain, hnodup, hfresh⟩ := ih hinner
    obtain ⟨hgoal', hnodup'⟩ := List.nodup_cons.mp hnodup
    have hf : f ∉ inner := fun hmem => hfresh f hmem (by simp)
    refine ⟨⟨f, by simp, by simp⟩, ?_, ?_, ?_⟩
    · refine List.isChain_cons.mpr ⟨fun x hx => ?_, hchain⟩
      obtain rfl := Option.some.inj (hhead.symm.trans hx)
      exact hfirst
    · refine List.nodup_cons.mpr ⟨?_, List.nodup_cons.mpr ⟨hf, hnodup'⟩⟩
      rw [List.mem_cons, not_or]
      exact ⟨fun heq => hgoal heq.symm, hgoal'⟩
    · intro x hx
      rcases List.mem_cons.mp hx with rfl | hx
      · exact hnew
      · exact fun hv => hfresh x hx (List.mem_cons_of_mem f hv)
  | case6 visited limit f rest hgoal hvisited inner hinner ih₁ ih₂ =>
    obtain ⟨⟨first, hfirst, hhead⟩, hchain, hnodup, hfresh⟩ := ih₂ h
    refine ⟨⟨first, List.mem_cons_of_mem f hfirst, hhead⟩, hchain, hnodup, ?_⟩
    -- more is passed over than before
    intro x hx hv
    exact hfresh x hx (subset_of_searchPath_ok hinner (List.mem_cons_of_mem f hv))

end Search

/-! ## The cycle reported -/

/-- Reading some fields would make a field read itself: one of them is the field, or reads it,
directly or through others. -/
def ReadsBack (g : DependencyGraph) (f : FieldId) (fs : List FieldId) : Prop :=
  ∃ p ∈ fs, p = f ∨ TransGen g.Reads p f

/-- A cycle that a field would be on if it read some fields. It is the field alone, if that is one
of them. Otherwise one of them comes after the field, each further field is read by the one before
it, the last one reads the field, and no field comes twice. -/
inductive Closes (g : DependencyGraph) (f : FieldId) (fs : List FieldId) : List FieldId → Prop
  | itself (h : f ∈ fs) : Closes g f fs [f]
  | through {first : FieldId} {rest : List FieldId} (hfirst : first ∈ fs)
      (hchain : (first :: rest).IsChain g.Reads)
      (hlast : ∃ last, (first :: rest).getLast? = some last ∧ g.Reads last f)
      (hnodup : (f :: first :: rest).Nodup) : Closes g f fs (f :: first :: rest)

theorem Closes.mono {fs' : List FieldId} (h : g.Closes f fs path) (hsub : ∀ p ∈ fs, p ∈ fs') :
    g.Closes f fs' path := by
  cases h with
  | itself h => exact .itself (hsub f h)
  | through hfirst hchain hlast hnodup => exact .through (hsub _ hfirst) hchain hlast hnodup

theorem Closes.readsBack (h : g.Closes f fs path) : g.ReadsBack f fs := by
  cases h with
  | itself h => exact ⟨f, h, .inl rfl⟩
  | @through first rest hfirst hchain hlast =>
    obtain ⟨last, hlast, hread⟩ := hlast
    have hend : (first :: rest).getLast (by simp) = last :=
      Option.some.inj ((List.getLast?_eq_getLast_of_ne_nil _).symm.trans hlast)
    have hway := List.relationReflTransGen_of_exists_isChain_cons rest hchain hend
    exact ⟨first, hfirst, .inr (.tail' hway hread)⟩

theorem closes_of_findCycle (h : g.findCycle f fs = some path) : g.Closes f fs path := by
  rw [findCycle] at h
  split at h
  · rename_i way hway
    cases h
    obtain ⟨⟨first, hfirst, hhead⟩, hchain, hnodup, -⟩ := searchPath_error hway
    have hreads : (way ++ [f]).IsChain g.Reads :=
      hchain.imp fun a b hab => mem_precedentFields.mp hab
    cases way with
    | nil =>
      cases hhead
      exact .itself hfirst
    | cons x rest =>
      cases hhead
      obtain ⟨hrest, -, hend⟩ := List.isChain_append.mp hreads
      refine .through hfirst hrest ?_ hnodup
      have hlast := List.getLast?_eq_some_getLast (List.cons_ne_nil first rest)
      exact ⟨_, hlast, hend _ hlast f rfl⟩
  · cases h

/-- The search finds a cycle exactly if there is one to be closed. -/
theorem findCycle_eq_none_iff : g.findCycle f fs = none ↔ ¬ g.ReadsBack f fs := by
  constructor
  · rintro hnone ⟨p, hp, hpf⟩
    obtain ⟨all, hf, hfs, hclosed⟩ := closed_of_findCycle_eq_none hnone
    -- what is reached from the fields to read stays within a set without the field
    have hmem : ∀ x, TransGen g.Reads p x → x ∈ all := by
      intro x hx
      induction hx with
      | single hx => exact hclosed p (hfs p hp) _ hx
      | tail _ hx ih => exact hclosed _ ih _ hx
    rcases hpf with rfl | hpf
    · exact hf (hfs p hp)
    · exact hf (hmem f hpf)
  · intro hnot
    cases hcycle : g.findCycle f fs with
    | none => rfl
    | some path => exact absurd (closes_of_findCycle hcycle).readsBack hnot

/-! ## Refused edits -/

/-- The fields that a search for a cycle starts from are those behind the references. -/
theorem mem_newFields :
    p ∈ g.sorted ((edgesOf references).map (·.1)) ↔ p ∈ fieldsOf references := by
  simp [mem_sorted, mem_fieldsOf]

/-- An edit fails with a cycle that it would close. -/
theorem setReads_error {err : FormulaError} (h : g.setReads f references = .error err) :
    ∃ path, err = .circularDependency path ∧ g.Closes f (fieldsOf references) path := by
  rw [setReads] at h
  simp only at h
  split at h
  · rename_i path hcycle
    cases h
    exact ⟨path, rfl, (closes_of_findCycle hcycle).mono fun p hp => mem_newFields.mp hp⟩
  · cases h

/-- An edit that would make the field read itself fails. -/
theorem setReads_of_readsBack (h : g.ReadsBack f (fieldsOf references)) :
    ∃ path, g.setReads f references = .error (.circularDependency path) := by
  obtain ⟨p, hp, hpf⟩ := h
  cases hcycle : g.findCycle f (g.sorted ((edgesOf references).map (·.1))) with
  | none => exact absurd ⟨p, mem_newFields.mpr hp, hpf⟩ (findCycle_eq_none_iff.mp hcycle)
  | some path => exact ⟨path, by rw [setReads, hcycle]⟩

/-! ## The order of what is reported -/

/-- Some fields in the order of their places, each once. -/
def InOrder (g : DependencyGraph) (fs : List FieldId) : Prop :=
  (∀ x ∈ fs, x ∈ g.order) ∧ fs.Pairwise fun a b => g.slot a < g.slot b

theorem compareFields_eq_lt : g.compareFields a b = .lt ↔
    g.slot a < g.slot b ∨ g.slot a = g.slot b ∧ a.index < b.index := by
  rw [compareFields, Ordering.then_eq_lt, Nat.compare_eq_lt, Nat.compare_eq_eq, FieldId.compare,
    Nat.compare_eq_lt]

theorem slot_of_not_mem (h : a ∉ g.order) : g.slot a = g.order.length :=
  List.idxOf_eq_length h

theorem length_le_slot (h : g.order <+: g'.order) (ha : a ∉ g.order) :
    g.order.length ≤ g'.slot a := by
  obtain ⟨rest, hrest⟩ := h
  rw [slot, ← hrest, List.idxOf_append_of_notMem ha]
  exact Nat.le_add_right _ _

/-- Registering a field leaves the order of others alone. -/
theorem compareFields_register (ha : a ≠ f) (hb : b ≠ f)
    (hlt : g.compareFields a b = .lt) : (g.register f).compareFields a b = .lt := by
  rw [compareFields_eq_lt] at hlt ⊢
  -- a field without a place stays without one
  have hslot : ∀ x, x ≠ f →
      g.slot x < g.order.length ∧ (g.register f).slot x = g.slot x ∨
        g.slot x = g.order.length ∧ (g.register f).slot x = (g.register f).order.length := by
    intro x hx
    by_cases hmem : x ∈ g.order
    · exact .inl ⟨slot_lt hmem, (slot_of_appended (prefix_order_register g f) hmem).2⟩
    · refine .inr ⟨slot_of_not_mem hmem, slot_of_not_mem fun hin => ?_⟩
      rcases mem_order_register.mp hin with hin | hin
      · exact hmem hin
      · exact hx hin
  have hle : g.order.length ≤ (g.register f).order.length := (prefix_order_register g f).length_le
  rcases hslot a ha with hsa | hsa <;> rcases hslot b hb with hsb | hsb <;> omega

/-- A field registered next comes before those after it in the order. -/
theorem slot_lt_of_register (hlt : g.compareFields a b = .lt) (hne : b ≠ a)
    (hmore : (g.register a).order <+: g'.order) : g'.slot a < g'.slot b := by
  have ha : a ∈ (g.register a).order := mem_order_register.mpr (.inr rfl)
  rw [(slot_of_appended hmore ha).2]
  by_cases hb : b ∈ (g.register a).order
  · have hbg : b ∈ g.order := (mem_order_register.mp hb).resolve_right hne
    have hslotb := (slot_of_appended (prefix_order_register g a) hbg).2
    rw [(slot_of_appended hmore hb).2, hslotb]
    -- what comes before a field that has a place has one too
    have hag : a ∈ g.order := by
      by_contra hag
      have := slot_of_not_mem hag
      have := slot_lt hbg
      rcases compareFields_eq_lt.mp hlt with hlt | ⟨heq, -⟩ <;> omega
    rw [(slot_of_appended (prefix_order_register g a) hag).2]
    rcases compareFields_eq_lt.mp hlt with hlt | ⟨heq, -⟩
    · exact hlt
    · exact absurd ((slot_inj hag).mp heq).symm hne
  · exact (slot_lt ha).trans_le (length_le_slot hmore hb)

/-- Fields registered in their order have their places in it. -/
theorem pairwise_slot_foldl_register (h : fs.Pairwise (g.compareFields · · = .lt)) :
    fs.Pairwise fun a b => (fs.foldl register g).slot a < (fs.foldl register g).slot b := by
  induction fs generalizing g with
  | nil => exact List.Pairwise.nil
  | cons a fs ih =>
    obtain ⟨ha, hfs⟩ := List.pairwise_cons.mp h
    have hne : ∀ b ∈ fs, b ≠ a := by
      rintro b hb rfl
      exact absurd ((ha b hb).symm.trans Std.ReflCmp.compare_self) (by decide)
    refine List.pairwise_cons.mpr ⟨fun b hb => ?_, ih ?_⟩
    · exact slot_lt_of_register (ha b hb) (hne b hb) (prefix_order_foldl_register _ fs)
    · exact hfs.imp_of_mem fun hb hc hlt => compareFields_register (hne _ hb) (hne _ hc) hlt

theorem inOrder_sorted (h : ∀ x ∈ fs, x ∈ g.order) : g.InOrder (g.sorted fs) := by
  have hmem : ∀ x ∈ g.sorted fs, x ∈ g.order := fun x hx => h x (mem_sorted.mp hx)
  refine ⟨hmem, (Ordered.pairwise_ofList fs).imp_of_mem ?_⟩
  intro a b ha _ hlt
  rcases compareFields_eq_lt.mp hlt with hlt | ⟨heq, hindex⟩
  · exact hlt
  · -- no two fields have one place
    obtain rfl := (slot_inj (hmem a ha)).mp heq
    exact absurd hindex (Nat.lt_irrefl _)

/-! ## Accepted edits -/

theorem diff_setReads (h : g.setReads f references = .ok (g', diff)) :
    diff.added = (g.sorted ((edgesOf references).map (·.1))).filter
        (!((g.edgesFrom f).map (·.1)).contains ·) ∧
      diff.removed = (g.registered f references).sorted (((g.edgesFrom f).map (·.1)).filter
        (!(g.sorted ((edgesOf references).map (·.1))).contains ·)) := by
  rw [setReads] at h
  simp only at h
  split at h
  · cases h
  · cases h
    exact ⟨rfl, rfl⟩

theorem mem_map_edgesFrom : p ∈ (g.edgesFrom f).map (·.1) ↔ g.Reads f p := by
  simp [Reads]

/-- What an accepted edit reports: the fields that are read from then on and were not before, and
those that were and no longer are, both in order. -/
theorem WellFormed.reported (hg : g.WellFormed) (h : g.setReads f references = .ok (g', diff)) :
    ((∀ p, p ∈ diff.added ↔ p ∈ fieldsOf references ∧ ¬ g.Reads f p) ∧ g'.InOrder diff.added) ∧
      (∀ p, p ∈ diff.removed ↔ g.Reads f p ∧ p ∉ fieldsOf references) ∧
        g'.InOrder diff.removed := by
  obtain ⟨hadded, hremoved⟩ := diff_setReads h
  have horder := order_setReads h
  have hf : f ∉ fieldsOf references := by
    intro hf
    exact findCycle_eq_none_iff.mp (setReads_ok h).1 ⟨f, mem_newFields.mpr hf, .inl rfl⟩
  have hsame : ∀ fs, (g.registered f references).InOrder fs → g'.InOrder fs := by
    intro fs hfs
    rw [InOrder, horder]
    simp only [slot, horder]
    exact hfs
  refine ⟨⟨fun p => ?_, hsame _ ⟨fun x hx => ?_, ?_⟩⟩, fun p => ?_, hsame _ ?_⟩
  · rw [hadded, List.mem_filter, mem_newFields, Bool.not_eq_true', List.contains_eq_mem,
      decide_eq_false_iff_not, mem_map_edgesFrom]
  · rw [hadded] at hx
    exact mem_order_foldl_register.mpr (.inr (List.mem_of_mem_filter hx))
  · -- the field itself is registered first, but it is not one of those reported
    have hsorted : (g.sorted ((edgesOf references).map (·.1))).Pairwise
        ((g.register f).compareFields · · = .lt) := by
      refine (Ordered.pairwise_ofList _).imp_of_mem fun ha hb hlt => ?_
      refine compareFields_register ?_ ?_ hlt
      · rintro rfl
        exact hf (mem_newFields.mp ha)
      · rintro rfl
        exact hf (mem_newFields.mp hb)
    rw [hadded]
    exact (pairwise_slot_foldl_register hsorted).filter _
  · rw [hremoved, mem_sorted, List.mem_filter, mem_map_edgesFrom, Bool.not_eq_true',
      List.contains_eq_mem, decide_eq_false_iff_not, mem_newFields]
  · rw [hremoved]
    refine inOrder_sorted fun x hx => mem_order_registered.mpr (.inl (.inl ?_))
    exact (hg.placed f x (mem_map_edgesFrom.mp (List.mem_of_mem_filter hx))).2

/-- After any edits, an edit is refused if and only if it would make the field read itself. Then
nothing changes, and the error names a cycle that would be closed. Otherwise it is accepted, and
reports the fields that the field began to read and those that it ceased to read, both in the
order of registration and each once. -/
theorem setReads_exact (edits : List Edit) (f : FieldId) (references : List Reference) :
    ((∃ path, (edited edits).setReads f references = .error (.circularDependency path)) ↔
      (edited edits).ReadsBack f (fieldsOf references)) ∧
    (∀ err, (edited edits).setReads f references = .error err →
      edited (.setReads f references :: edits) = edited edits ∧
      ∃ path, err = .circularDependency path ∧
        (edited edits).Closes f (fieldsOf references) path) ∧
    (¬ (edited edits).ReadsBack f (fieldsOf references) →
      ∃ diff, (edited edits).setReads f references =
          .ok (edited (.setReads f references :: edits), diff) ∧
        (∀ p, p ∈ diff.added ↔ p ∈ fieldsOf references ∧ ¬ (edited edits).Reads f p) ∧
        (edited (.setReads f references :: edits)).InOrder diff.added ∧
        (∀ p, p ∈ diff.removed ↔ (edited edits).Reads f p ∧ p ∉ fieldsOf references) ∧
        (edited (.setReads f references :: edits)).InOrder diff.removed) := by
  refine ⟨⟨?_, setReads_of_readsBack⟩, fun err herror => ⟨?_, setReads_error herror⟩, ?_⟩
  · rintro ⟨path, herror⟩
    obtain ⟨cycle, -, hcloses⟩ := setReads_error herror
    exact hcloses.readsBack
  · rw [edited, edit, herror]
  · intro hnot
    cases hset : (edited edits).setReads f references with
    | error err =>
      obtain ⟨cycle, -, hcloses⟩ := setReads_error hset
      exact absurd hcloses.readsBack hnot
    | ok result =>
      obtain ⟨g', diff⟩ := result
      have hedited : edited (.setReads f references :: edits) = g' := by
        rw [edited, edit, hset]
      rw [hedited]
      obtain ⟨⟨hadded, hadded'⟩, hremoved, hremoved'⟩ := (edited_wellFormed edits).reported hset
      exact ⟨diff, rfl, hadded, hadded', hremoved, hremoved'⟩

end DependencyGraph

end ComputedFields
