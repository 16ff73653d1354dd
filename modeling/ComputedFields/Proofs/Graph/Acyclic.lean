import ComputedFields.Proofs.Graph.Edges
import Mathlib.Data.Finset.Card
import Mathlib.Data.Fintype.Basic

/-!
# Graphs without cycles

The search for a cycle overlooks none, so an accepted edit keeps the graph free of cycles. In a
graph without cycles every formula field has a height, and each read goes down.
-/

namespace ComputedFields

open Relation

namespace DependencyGraph

variable {g g' : DependencyGraph} {f p d : FieldId}

/-! ## The search -/

section Search

variable {next : FieldId → List FieldId} {goal : FieldId} {keys : List FieldId}

/-- One more visited field leaves fewer keys to visit. -/
theorem length_filter_lt {visited : List FieldId} (hf : f ∈ keys) (hnew : f ∉ visited) :
    (keys.filter (· ∉ f :: visited)).length < (keys.filter (· ∉ visited)).length := by
  have hsub : (keys.filter (· ∉ f :: visited)) = (keys.filter (· ∉ visited)).filter (· ≠ f) := by
    rw [List.filter_filter]
    refine List.filter_congr fun x _ => ?_
    simp
  rw [hsub]
  refine List.length_filter_lt_length_iff_exists.mpr ⟨f, ?_, by simp⟩
  simp [hf, hnew]

theorem length_filter_le {visited visited' : List FieldId} (keys : List FieldId)
    (h : ∀ x ∈ visited, x ∈ visited') :
    (keys.filter (· ∉ visited')).length ≤ (keys.filter (· ∉ visited)).length := by
  refine List.Sublist.length_le (List.monotone_filter_right keys ?_)
  intro x hx
  simp only [decide_eq_true_eq] at hx ⊢
  exact fun hv => hx (h x hv)

/-- A search that ends without a path has visited its frontier and all that can be reached from
there, and met the goal nowhere. `keys` holds the fields that lead on to others; the limit has to
exceed the number of those not visited. -/
theorem searchPath_ok (hkeys : ∀ f, next f ≠ [] → f ∈ keys) (limit : Nat)
    (visited frontier : List FieldId) {all : List FieldId}
    (hlimit : frontier ≠ [] → (keys.filter (· ∉ visited)).length < limit)
    (h : searchPath next goal limit visited frontier = .ok all) :
    (∀ f ∈ visited, f ∈ all) ∧ (∀ f ∈ frontier, f ∈ all) ∧
      ∀ f ∈ all, f ∈ visited ∨ f ≠ goal ∧ ∀ p ∈ next f, p ∈ all := by
  fun_induction searchPath next goal limit visited frontier generalizing all with
  | case1 limit visited =>
    cases h
    exact ⟨fun _ hf => hf, by simp, fun _ hf => .inl hf⟩
  | case2 visited frontier hne =>
    exact absurd (hlimit hne) (Nat.not_lt_zero _)
  | case3 => cases h
  | case4 visited limit f rest hgoal hvisited ih =>
    obtain ⟨hold, hrest, hclosed⟩ := ih (fun _ => hlimit (by simp)) h
    refine ⟨hold, ?_, hclosed⟩
    intro x hx
    rcases List.mem_cons.mp hx with rfl | hx
    · exact hold x (by simpa using hvisited)
    · exact hrest x hx
  | case5 => cases h
  | case6 visited limit f rest hgoal hvisited inner hinner ih₁ ih₂ =>
    have hnew : f ∉ visited := by simpa using hvisited
    -- the way down: `f` leads on, so it is one of the keys, and one fewer is left
    obtain ⟨hold₁, hnext, hclosed₁⟩ := ih₁ (fun hne => by
      have := length_filter_lt (hkeys f hne) hnew
      have := hlimit (by simp)
      omega) hinner
    have hsub : ∀ x ∈ visited, x ∈ inner := fun x hx => hold₁ x (List.mem_cons_of_mem _ hx)
    obtain ⟨hold₂, hrest, hclosed₂⟩ := ih₂ (fun _ => by
      have := length_filter_le keys hsub
      have := hlimit (by simp)
      omega) h
    refine ⟨fun x hx => hold₂ x (hsub x hx), ?_, ?_⟩
    · intro x hx
      rcases List.mem_cons.mp hx with rfl | hx
      · exact hold₂ x (hold₁ x (by simp))
      · exact hrest x hx
    · intro x hx
      rcases hclosed₂ x hx with hx | hx
      · rcases hclosed₁ x hx with hx | ⟨hxg, hxn⟩
        · rcases List.mem_cons.mp hx with rfl | hx
          · exact .inr ⟨hgoal, fun p hp => hold₂ p (hnext p hp)⟩
          · exact .inl hx
        · exact .inr ⟨hxg, fun p hp => hold₂ p (hxn p hp)⟩
      · exact .inr hx

end Search

/-- Without a cycle through `f`, the fields that it is to read lie in a set that reads lead out of
nowhere and that does not hold `f`. -/
theorem closed_of_findCycle_eq_none {fs : List FieldId} (h : g.findCycle f fs = none) :
    ∃ all : List FieldId, f ∉ all ∧ (∀ p ∈ fs, p ∈ all) ∧
      ∀ x ∈ all, ∀ p, g.Reads x p → p ∈ all := by
  rw [findCycle] at h
  split at h
  · cases h
  rename_i all hok
  have hkeys : ∀ x, g.precedentFields x ≠ [] → x ∈ g.reads.keys := by
    intro x hx
    obtain ⟨p, hp⟩ := List.exists_mem_of_ne_nil _ hx
    exact Entries.mem_keys.mpr (mem_precedentFields.mp hp).isFormula
  -- only fields with reads lead on, and the limit is above their number
  have hlimit : (g.reads.keys.filter (· ∉ ([] : List FieldId))).length < g.reads.size + 2 := by
    have hle := List.length_filter_le (· ∉ ([] : List FieldId)) g.reads.keys
    have hsize : g.reads.keys.length = g.reads.size := List.length_map _
    omega
  obtain ⟨-, hfs, hclosed⟩ := searchPath_ok hkeys _ _ _ (fun _ => hlimit) hok
  have hinv : ∀ x ∈ all, x ≠ f ∧ ∀ p ∈ g.precedentFields x, p ∈ all := by
    intro x hx
    simpa using hclosed x hx
  exact ⟨all, fun hf => (hinv f hf).1 rfl, hfs,
    fun x hx p hp => (hinv x hx).2 p (mem_precedentFields.mpr hp)⟩

/-! ## Edits -/

/-- A path either avoids the reads of `f` or passes through `f`. -/
theorem reads_or_through (hsame : ∀ x, x ≠ f → ∀ p, g'.Reads x p → g.Reads x p) {x y : FieldId}
    (h : TransGen g'.Reads x y) :
    TransGen g.Reads x y ∨ ReflTransGen g'.Reads x f ∧ TransGen g'.Reads f y := by
  induction h with
  | @single y hxy =>
    by_cases hx : x = f
    · subst hx
      exact .inr ⟨.refl, .single hxy⟩
    · exact .inl (.single (hsame x hx y hxy))
  | @tail y z hxy hyz ih =>
    by_cases hy : y = f
    · subst hy
      exact .inr ⟨hxy.to_reflTransGen, .single hyz⟩
    · rcases ih with ih | ⟨hxf, hfy⟩
      · exact .inl (ih.tail (hsame y hy z hyz))
      · exact .inr ⟨hxf, hfy.tail hyz⟩

/-- New reads of one field close no cycle if they lead into a set that reads lead out of nowhere
and that does not hold the field. -/
theorem Acyclic.edit (hg : g.Acyclic) (hsame : ∀ x, x ≠ f → ∀ p, g'.Reads x p → g.Reads x p)
    {all : List FieldId} (hf : f ∉ all) (hnew : ∀ p, g'.Reads f p → p ∈ all)
    (hclosed : ∀ x ∈ all, ∀ p, g.Reads x p → p ∈ all) : g'.Acyclic := by
  -- the first read leads into the set, and no further one leads out
  have hreach : ∀ y, TransGen g'.Reads f y → y ∈ all := by
    intro y hy
    induction hy with
    | single hy => exact hnew _ hy
    | @tail x y _ hxy ih =>
      have hx : x ≠ f := by
        rintro rfl
        exact hf ih
      exact hclosed x ih y (hsame x hx y hxy)
  intro x hx
  rcases reads_or_through hsame hx with hx | ⟨hxf, hfx⟩
  · exact hg x hx
  · exact hf (hreach f (hfx.trans_left hxf))

theorem Acyclic.of_reads (hg : g.Acyclic) (h : ∀ x p, g'.Reads x p → g.Reads x p) : g'.Acyclic :=
  fun x hx => hg x (TransGen.mono h x x hx)

/-- A graph as edits make it: both tables hold the same edges, and there is no cycle. -/
structure Consistent (g : DependencyGraph) : Prop where
  mirrored : g.Mirrored
  acyclic : g.Acyclic

theorem Consistent.empty : empty.Consistent where
  mirrored := by
    intro p d kind
    simp [edgesTo, edgesFrom, DependencyGraph.empty]
  acyclic := by
    intro f hf
    obtain ⟨p, hp, -⟩ := TransGen.head'_iff.mp hf
    obtain ⟨kind, hkind⟩ := hp
    simp [edgesFrom, DependencyGraph.empty] at hkind

@[simp] theorem reads_register (g : DependencyGraph) (f : FieldId) :
    (g.register f).reads = g.reads := by
  rw [register]
  split <;> rfl

@[simp] theorem readers_register (g : DependencyGraph) (f : FieldId) :
    (g.register f).readers = g.readers := by
  rw [register]
  split <;> rfl

theorem Consistent.register (h : g.Consistent) (f : FieldId) : (g.register f).Consistent := by
  have hfrom : (g.register f).edgesFrom = g.edgesFrom := by
    funext d
    simp [edgesFrom]
  have hto : (g.register f).edgesTo = g.edgesTo := by
    funext d
    simp [edgesTo]
  have hreads : (g.register f).Reads = g.Reads := by
    funext x y
    simp [Reads, hfrom]
  exact ⟨by rw [Mirrored, hfrom, hto]; exact h.mirrored, by rw [Acyclic, hreads]; exact h.acyclic⟩

theorem reads_foldl_register (g : DependencyGraph) (fs : List FieldId) :
    (fs.foldl register g).reads = g.reads := by
  induction fs generalizing g with
  | nil => rfl
  | cons f fs ih => exact (ih (g.register f)).trans (reads_register g f)

theorem readers_foldl_register (g : DependencyGraph) (fs : List FieldId) :
    (fs.foldl register g).readers = g.readers := by
  induction fs generalizing g with
  | nil => rfl
  | cons f fs ih => exact (ih (g.register f)).trans (readers_register g f)

theorem Consistent.foldl_register (h : g.Consistent) (fs : List FieldId) :
    (fs.foldl DependencyGraph.register g).Consistent := by
  induction fs generalizing g with
  | nil => exact h
  | cons f fs ih => exact ih (h.register f)

/-- What an accepted edit does to the graph. -/
theorem setReads_ok {references : List Reference} {diff : DependencyDiff}
    (h : g.setReads f references = .ok (g', diff)) :
    g.findCycle f (g.sorted ((edgesOf references).map (·.1))) = none ∧
      g'.reads = g.reads.set f (edgesOf references) ∧
      g'.readers = ((edgesOf references).filter (!(g.edgesFrom f).contains ·)).foldl (addReader f)
        (((g.edgesFrom f).filter (!(edgesOf references).contains ·)).foldl (dropReader f)
          g.readers) := by
  rw [setReads] at h
  simp only at h
  split at h
  · cases h
  · rename_i hcycle
    cases h
    exact ⟨hcycle, rfl, rfl⟩

theorem edgesFrom_of_reads_set {edges : List Edge} (h : g'.reads = g.reads.set f edges)
    (d : FieldId) : g'.edgesFrom d = if d = f then edges else g.edgesFrom d := by
  by_cases hd : d = f <;> simp [edgesFrom, h, hd]

theorem Consistent.setReads (hg : g.Consistent) {references : List Reference}
    {diff : DependencyDiff} (h : g.setReads f references = .ok (g', diff)) : g'.Consistent := by
  obtain ⟨hcycle, hreads, hreaders⟩ := setReads_ok h
  have hfrom := edgesFrom_of_reads_set hreads
  constructor
  · intro p d kind
    -- only the edges that are new and those that are gone change the table of readers
    have hto : (d, kind) ∈ g'.edgesTo p ↔ (d, kind) ∈ readersOf g'.readers p := Iff.rfl
    have hold : (d, kind) ∈ readersOf g.readers p ↔ (p, kind) ∈ g.edgesFrom d :=
      hg.mirrored p d kind
    rw [hto, hreaders, mem_readersOf_foldl_addReader, mem_readersOf_foldl_dropReader, hold, hfrom]
    by_cases hd : d = f
    · subst hd
      simp only [List.mem_filter, List.contains_eq_mem, Bool.not_eq_true', decide_eq_false_iff_not,
        if_true]
      tauto
    · simp [hd]
  -- the search for a cycle has found none, so the new reads lead away from the field
  · obtain ⟨all, hf, hnew, hclosed⟩ := closed_of_findCycle_eq_none hcycle
    refine hg.acyclic.edit ?_ hf ?_ hclosed
    · rintro x hx p ⟨kind, hp⟩
      rw [hfrom, if_neg hx] at hp
      exact ⟨kind, hp⟩
    · rintro p ⟨kind, hp⟩
      rw [hfrom, if_pos rfl] at hp
      exact hnew p (mem_sorted.mpr (List.mem_map_of_mem hp))

theorem edgesFrom_removeReads (g : DependencyGraph) (f d : FieldId) :
    (g.removeReads f).1.edgesFrom d = if d = f then [] else g.edgesFrom d := by
  by_cases hd : d = f <;> simp [removeReads, edgesFrom, hd]

theorem Consistent.removeReads (hg : g.Consistent) (f : FieldId) :
    (g.removeReads f).1.Consistent := by
  have hfrom := edgesFrom_removeReads g f
  constructor
  · intro p d kind
    have hto : (d, kind) ∈ (g.removeReads f).1.edgesTo p ↔
        (d, kind) ∈ readersOf ((g.edgesFrom f).foldl (dropReader f) g.readers) p := Iff.rfl
    have hold : (d, kind) ∈ readersOf g.readers p ↔ (p, kind) ∈ g.edgesFrom d :=
      hg.mirrored p d kind
    rw [hto, mem_readersOf_foldl_dropReader, hold, hfrom]
    by_cases hd : d = f
    · subst hd
      simp
    · simp [hd]
  · refine hg.acyclic.of_reads ?_
    rintro x p ⟨kind, hp⟩
    rw [hfrom] at hp
    split at hp
    · simp at hp
    · exact ⟨kind, hp⟩

/-! ## Heights -/

open Classical in
/-- How many formula fields a field reads, directly or through others. -/
noncomputable def height (g : DependencyGraph) (f : FieldId) : Nat :=
  (g.reads.keys.toFinset.filter fun p => TransGen g.Reads f p).card

/-- Reads go down. -/
theorem height_lt (hg : g.Acyclic) (h : g.Reads f p) (hp : g.isFormula p = true) :
    g.height p < g.height f := by
  refine Finset.card_lt_card (Finset.ssubset_iff_of_subset ?_ |>.mpr ⟨p, ?_, ?_⟩)
  · intro x hx
    simp only [Finset.mem_filter] at hx ⊢
    exact ⟨hx.1, .head h hx.2⟩
  · simp only [Finset.mem_filter, List.mem_toFinset]
    exact ⟨Entries.mem_keys.mpr hp, .single h⟩
  · simp only [Finset.mem_filter, not_and]
    exact fun _ => hg p

/-- No chain of reads is longer than there are formula fields. -/
theorem height_lt_size (hg : g.Acyclic) (h : g.isFormula f = true) : g.height f < g.reads.size := by
  have hcard : g.reads.keys.toFinset.card = g.reads.size :=
    (List.toFinset_card_of_nodup g.reads.nodup).trans (List.length_map _)
  classical
  rw [← hcard]
  refine Finset.card_lt_card (Finset.ssubset_iff_of_subset (Finset.filter_subset _ _) |>.mpr
    ⟨f, List.mem_toFinset.mpr (Entries.mem_keys.mpr h), ?_⟩)
  simp only [Finset.mem_filter, not_and]
  exact fun _ => hg f

end DependencyGraph

end ComputedFields
