import ComputedFields.Dependency.Indexed
import ComputedFields.Proofs.Graph.Edits
import ComputedFields.Proofs.Steps

/-!
# The tables of a graph

The tables in which a graph is kept agree with one another after any edits. What they represent is a
graph that each edit changes as it should, so that a field has a formula just where it has a list of
what it reads, and the places are those of an order in which no field comes twice.
-/

namespace ComputedFields

open Relation

namespace IndexedGraph

open DependencyGraph (Edit)

variable {x : IndexedGraph} {g : DependencyGraph} {f p d : FieldId} {fs : List FieldId}
  {references : List Reference}

/-! ## What the tables represent -/

/-- The tables hold the reads of a graph, the fields with a formula are those with a list of what
they read, and the places are the positions in the order of registration. -/
structure Represents (x : IndexedGraph) (g : DependencyGraph) : Prop where
  dependents : x.dependents = g.readers
  precedents : x.precedents = g.reads
  formulas : ∀ f, f ∈ x.formulas ↔ g.isFormula f = true
  order : ∀ f, x.order.get? f = if f ∈ g.order then some (g.slot f) else none
  nextOrder : x.nextOrder = g.order.length

theorem Represents.empty : empty.Represents .empty where
  dependents := rfl
  precedents := rfl
  formulas := fun _ => iff_of_false List.not_mem_nil Bool.false_ne_true
  order := fun _ => rfl
  nextOrder := rfl

theorem Represents.contains_order (h : x.Represents g) (f : FieldId) :
    x.order.contains f = g.order.contains f := by
  rw [Entries.contains, h.order]
  by_cases hf : f ∈ g.order <;> simp [hf]

/-- Places put fields in the order in which they were registered. -/
theorem Represents.compareFields (h : x.Represents g) : x.compareFields = g.compareFields := by
  funext a b
  rw [IndexedGraph.compareFields, DependencyGraph.compareFields, h.order, h.order]
  congr 1
  by_cases ha : a ∈ g.order
  · have hlt : g.slot a < g.order.length := DependencyGraph.slot_lt ha
    by_cases hb : b ∈ g.order
    · rw [if_pos ha, if_pos hb, comparePlaces]
    · have hlast : g.slot b = g.order.length := List.idxOf_eq_length_iff.mpr hb
      rw [if_pos ha, if_neg hb, comparePlaces, hlast, Nat.compare_eq_lt.mpr hlt]
  · have hlast : g.slot a = g.order.length := List.idxOf_eq_length_iff.mpr ha
    by_cases hb : b ∈ g.order
    · have hlt : g.slot b < g.order.length := DependencyGraph.slot_lt hb
      rw [if_neg ha, if_pos hb, comparePlaces, hlast, Nat.compare_eq_gt.mpr hlt]
    · have hlast' : g.slot b = g.order.length := List.idxOf_eq_length_iff.mpr hb
      rw [if_neg ha, if_neg hb, comparePlaces, hlast, hlast', Nat.compare_eq_eq.mpr rfl]

theorem Represents.sorted (h : x.Represents g) : x.sorted = g.sorted := by
  funext fs
  rw [IndexedGraph.sorted, DependencyGraph.sorted, h.compareFields]

theorem Represents.edgesFrom (h : x.Represents g) : x.edgesFrom = g.edgesFrom := by
  funext f
  rw [IndexedGraph.edgesFrom, DependencyGraph.edgesFrom, h.precedents]

theorem Represents.edgesTo (h : x.Represents g) : x.edgesTo = g.edgesTo := by
  funext f
  rw [IndexedGraph.edgesTo, DependencyGraph.edgesTo, h.dependents]

theorem Represents.dependentFields (h : x.Represents g) :
    x.dependentFields = g.dependentFields := by
  funext f
  rw [IndexedGraph.dependentFields, DependencyGraph.dependentFields, h.sorted, h.edgesTo]

theorem Represents.findCycle (h : x.Represents g) : x.findCycle = g.findCycle := by
  have hnext : x.precedentFields = g.precedentFields := by
    funext f
    rw [precedentFields, DependencyGraph.precedentFields, h.sorted, h.edgesFrom]
  funext f precedents
  have hsearch : DependencyGraph.searchPath x.precedentFields f (x.precedents.size + 2) []
      precedents = DependencyGraph.searchPath g.precedentFields f (g.reads.size + 2) []
      precedents := by
    rw [hnext, h.precedents]
  cases hfound : DependencyGraph.searchPath g.precedentFields f (g.reads.size + 2) []
      precedents with
  | error path =>
    simp only [IndexedGraph.findCycle, DependencyGraph.findCycle, hsearch, hfound]
  | ok visited =>
    simp only [IndexedGraph.findCycle, DependencyGraph.findCycle, hsearch, hfound]

/-! ## Registering -/

theorem Represents.register (h : x.Represents g) (f : FieldId) :
    ∃ x', (register f).run x = .ok ⟨⟩ x' ∧ x'.Represents (g.register f) := by
  by_cases hf : f ∈ g.order
  · have hplaced : x.order.contains f = true := by
      rw [h.contains_order]
      exact List.contains_iff_mem.mpr hf
    refine ⟨x, by simp [IndexedGraph.register, hplaced], ?_⟩
    rwa [DependencyGraph.register_of_mem hf]
  · have hplaced : x.order.contains f = false := by
      rw [h.contains_order]
      simpa using hf
    refine ⟨{ x with order := x.order.set f x.nextOrder, nextOrder := x.nextOrder + 1 },
      by simp [IndexedGraph.register, hplaced], ?_⟩
    have horder : (g.register f).order = g.order ++ [f] := by
      rw [DependencyGraph.order_register, if_neg hf]
    refine ⟨?_, ?_, ?_, fun d => ?_, ?_⟩
    · rw [DependencyGraph.readers_register]
      exact h.dependents
    · rw [DependencyGraph.reads_register]
      exact h.precedents
    · intro d
      rw [DependencyGraph.isFormula, DependencyGraph.reads_register]
      exact h.formulas d
    · -- the field has the next place, and the others keep theirs
      rw [Entries.get?_set, h.nextOrder, h.order, horder, DependencyGraph.slot,
        DependencyGraph.slot, horder]
      by_cases hd : d = f
      · subst hd
        rw [if_pos rfl, if_pos (by simp), List.idxOf_append_of_notMem hf]
        simp
      · by_cases hmem : d ∈ g.order
        · rw [if_neg hd, if_pos hmem, if_pos (by simp [hmem]), List.idxOf_append_of_mem hmem]
        · rw [if_neg hd, if_neg hmem, if_neg (by simp [hmem, hd])]
    · rw [horder, List.length_append, h.nextOrder]
      rfl

theorem Represents.registerAll (h : x.Represents g) (fs : List FieldId) :
    ∃ x', (forM fs IndexedGraph.register).run x = .ok ⟨⟩ x' ∧
      x'.Represents (fs.foldl DependencyGraph.register g) := by
  induction fs generalizing x g with
  | nil => exact ⟨x, rfl, h⟩
  | cons f fs ih =>
    obtain ⟨x', hrun, h'⟩ := h.register f
    obtain ⟨x'', hruns, h''⟩ := ih h'
    refine ⟨x'', ?_, h''⟩
    show (IndexedGraph.register f >>= fun _ => forM fs IndexedGraph.register).run x = _
    rw [EStateM.run_bind, hrun]
    exact hruns

/-! ## Changing what is read -/

/-- Changing only what fields are read by, for one edge after the other. -/
theorem foldl_dependents
    (change : Entries FieldId (List Edge) → Edge → Entries FieldId (List Edge))
    (edges : List Edge) (x : IndexedGraph) :
    edges.foldl (fun x edge => { x with dependents := change x.dependents edge }) x =
      { x with dependents := edges.foldl change x.dependents } := by
  induction edges generalizing x with
  | nil => rfl
  | cons edge edges ih => exact ih _

/-- A field that has reads set is a formula field, and the others are what they were. -/
theorem Represents.mem_insert_formulas (h : x.Represents g) (edges : List Edge) :
    d ∈ Ordered.insert FieldId.compare f x.formulas ↔
      (g.reads.set f edges).contains d = true := by
  rw [Ordered.mem_insert, h.formulas, Entries.contains, Entries.get?_set]
  by_cases hd : d = f
  · simp [hd]
  · simp [hd, DependencyGraph.isFormula, Entries.contains]

theorem Represents.mem_filter_formulas (h : x.Represents g) :
    d ∈ x.formulas.filter (· ≠ f) ↔ (g.reads.erase f).contains d = true := by
  rw [List.mem_filter, h.formulas, Entries.contains, Entries.get?_erase]
  by_cases hd : d = f
  · simp [hd]
  · simp [hd, DependencyGraph.isFormula, Entries.contains]

/-- Writing down the reads of a field gives it the places, the edges and the entry among the formula
fields that the graph has it have. -/
theorem Represents.writeReads (h : x.Represents g) (f : FieldId) (newEdges : List Edge)
    (newFields : List FieldId) :
    let registered := newFields.foldl DependencyGraph.register (g.register f)
    let dropped := ((g.edgesFrom f).filter (!newEdges.contains ·)).foldl
      (DependencyGraph.dropReader f) g.readers
    let readers := (newEdges.filter (!(g.edgesFrom f).contains ·)).foldl
      (DependencyGraph.addReader f) dropped
    let oldFields := (g.edgesFrom f).map (·.1)
    ∃ x', (writeReads f newEdges newFields).run x =
        .ok ⟨newFields.filter (!oldFields.contains ·),
          registered.sorted (oldFields.filter (!newFields.contains ·))⟩ x' ∧
      x'.Represents { registered with reads := g.reads.set f newEdges, readers } := by
  intro registered dropped readers oldFields
  obtain ⟨x₁, hrun₁, h₁⟩ := h.register f
  obtain ⟨x₂, hrun₂, h₂⟩ := h₁.registerAll newFields
  -- registering changes no edges, so the edges read afterwards are those from before
  have hreads : registered.reads = g.reads := by
    rw [DependencyGraph.reads_foldl_register, DependencyGraph.reads_register]
  have hreaders : registered.readers = g.readers := by
    rw [DependencyGraph.readers_foldl_register, DependencyGraph.readers_register]
  have hfrom : x₂.edgesFrom f = g.edgesFrom f := by
    rw [h₂.edgesFrom, DependencyGraph.edgesFrom, hreads, DependencyGraph.edgesFrom]
  have hdependents : x₂.dependents = g.readers := h₂.dependents.trans hreaders
  have hprecedents : x₂.precedents = g.reads := h₂.precedents.trans hreads
  have hsorted (dependents precedents : Entries FieldId (List Edge)) :
      IndexedGraph.sorted ⟨dependents, precedents, x₂.formulas, x₂.order, x₂.nextOrder⟩ =
        registered.sorted := h₂.sorted
  refine ⟨⟨readers, g.reads.set f newEdges, Ordered.insert FieldId.compare f x₂.formulas, x₂.order,
    x₂.nextOrder⟩, ?_, rfl, rfl, fun d => ?_, h₂.order, h₂.nextOrder⟩
  · simp only [IndexedGraph.writeReads, EStateM.run_bind, hrun₁, hrun₂, EStateM.run_get,
      EStateM.run_pure, Steps.run_forM, EStateM.run_modify, foldl_dependents, hfrom, hdependents,
      hprecedents, hsorted, readers, dropped, oldFields]
  · have hformulas := h₂.mem_insert_formulas (f := f) (d := d) newEdges
    rwa [hreads] at hformulas

/-- The search for a cycle comes before anything is written. -/
theorem run_setReads (x : IndexedGraph) (f : FieldId) (references : List Reference) :
    (setReads f references).run x =
      (match x.findCycle f (x.sorted ((edgesOf references).map fun (edge : Edge) => edge.1)) with
        | some path => throw (FormulaError.circularDependency path)
        | none => writeReads f (edgesOf references)
            (x.sorted ((edgesOf references).map fun (edge : Edge) => edge.1))).run x := by
  rw [setReads, EStateM.run_bind, EStateM.run_get]
  rfl

/-- Setting what a field reads is refused with nothing written, or does to the tables what it does to
the graph. -/
theorem Represents.setReads (h : x.Represents g) (f : FieldId) (references : List Reference) :
    (∃ err, g.setReads f references = .error err ∧
        (setReads f references).run x = .error err x) ∨
      ∃ g' diff x', g.setReads f references = .ok (g', diff) ∧
        (setReads f references).run x = .ok diff x' ∧ x'.Represents g' := by
  obtain ⟨newFields, hnew⟩ : ∃ ps, g.sorted ((edgesOf references).map (·.1)) = ps := ⟨_, rfl⟩
  rw [run_setReads, h.sorted, hnew, h.findCycle]
  cases hcycle : g.findCycle f newFields with
  | some path =>
    exact .inl ⟨.circularDependency path, by rw [DependencyGraph.setReads, hnew, hcycle], rfl⟩
  | none =>
    obtain ⟨x', hrun, h'⟩ := h.writeReads f (edgesOf references) newFields
    exact .inr ⟨_, _, x', by rw [DependencyGraph.setReads, hnew, hcycle], hrun, h'⟩

/-- Taking a formula away does what it does to the graph. -/
theorem Represents.removeReads (h : x.Represents g) (f : FieldId) :
    ∃ x', (removeReads f).run x = .ok (g.removeReads f).2 x' ∧
      x'.Represents (g.removeReads f).1 := by
  have hleft : IndexedGraph.Represents
      ⟨(g.edgesFrom f).foldl (DependencyGraph.dropReader f) g.readers, g.reads.erase f,
        x.formulas.filter (· ≠ f), x.order, x.nextOrder⟩ (g.removeReads f).1 :=
    ⟨rfl, rfl, fun _ => h.mem_filter_formulas, h.order, h.nextOrder⟩
  refine ⟨_, ?_, hleft⟩
  have hreaders := congrFun hleft.dependentFields f
  cases hedges : g.reads.get? f with
  | some edges =>
    have hfrom : g.edgesFrom f = edges := by
      rw [DependencyGraph.edgesFrom, hedges, Option.getD_some]
    rw [hfrom] at hreaders ⊢
    simp only [IndexedGraph.removeReads, EStateM.run_bind, EStateM.run_get, h.precedents, hedges,
      EStateM.run_modify, Steps.run_forM, foldl_dependents, h.dependents, EStateM.run_pure,
      hreaders]
    rfl
  | none =>
    -- without reads there is nothing to erase
    have hfrom : g.edgesFrom f = [] := by
      rw [DependencyGraph.edgesFrom, hedges, Option.getD_none]
    have hsame : g.reads.erase f = g.reads :=
      Entries.erase_of_absent (Entries.contains_eq_false.mpr hedges)
    rw [hfrom, hsame] at hreaders ⊢
    simp only [IndexedGraph.removeReads, EStateM.run_bind, EStateM.run_get, h.precedents, hedges,
      EStateM.run_modify, EStateM.run_pure, h.dependents]
    exact congrArg (EStateM.Result.ok · _) hreaders

/-! ## Edits -/

/-- A formula field reads a field in some way. -/
def Reads (x : IndexedGraph) (f p : FieldId) : Prop := ∃ kind, (p, kind) ∈ x.edgesFrom f

/-- The tables after some edits of the empty ones, the latest edit first. Each edit leaves what its
steps have written, whether it is refused or not. -/
def edited : List Edit → IndexedGraph
  | [] => empty
  | .register f :: earlier => (register f).after (edited earlier)
  | .setReads f references :: earlier => (setReads f references).after (edited earlier)
  | .removeReads f :: earlier => (removeReads f).after (edited earlier)

/-- The references last accepted for a field in the course of some edits, the latest edit first;
none if there are none or they have been removed since. -/
def accepted (f : FieldId) : List Edit → Option (List Reference)
  | [] => none
  | .register _ :: earlier => accepted f earlier
  | .setReads d references :: earlier =>
    if d = f ∧ (setReads d references).succeeds (edited earlier) then some references
    else accepted f earlier
  | .removeReads d :: earlier => if d = f then none else accepted f earlier

/-- The tables always represent the graph that the same edits make. -/
theorem represents_edited (edits : List Edit) :
    (edited edits).Represents (DependencyGraph.edited edits) := by
  induction edits with
  | nil => exact .empty
  | cons e earlier ih =>
    cases e with
    | register f =>
      obtain ⟨x', hrun, h'⟩ := ih.register f
      rwa [edited, Steps.after, hrun]
    | setReads f references =>
      rw [edited, Steps.after, DependencyGraph.edited, DependencyGraph.edit]
      rcases ih.setReads f references with ⟨err, hset, hrun⟩ | ⟨g', diff, x', hset, hrun, h'⟩
      · rwa [hset, hrun]
      · rwa [hset, hrun]
    | removeReads f =>
      obtain ⟨x', hrun, h'⟩ := ih.removeReads f
      rwa [edited, Steps.after, hrun]

theorem accepted_eq (f : FieldId) (edits : List Edit) :
    accepted f edits = DependencyGraph.accepted f edits := by
  induction edits with
  | nil => rfl
  | cons e earlier ih =>
    cases e with
    | register d => exact ih
    | setReads d references =>
      have hsucceeds : (setReads d references).succeeds (edited earlier) =
          ((DependencyGraph.edited earlier).setReads d references).isOk := by
        rcases (represents_edited earlier).setReads d references with
          ⟨err, hset, hrun⟩ | ⟨g', diff, x', hset, hrun, -⟩
        · rw [Steps.succeeds, hset, hrun]
          rfl
        · rw [Steps.succeeds, hset, hrun]
          rfl
      rw [accepted, DependencyGraph.accepted, hsucceeds, ih]
    | removeReads d => rw [accepted, DependencyGraph.accepted, ih]

/-- After any edits the two tables of edges hold the same edges; the fields with a formula are those
with a list of what they read, and the list has the edges of the references last accepted; no field
reads itself, directly or through others; and all fields at the ends of edges have places, which
are distinct, below the next place, and not changed by any later edit. -/
theorem edited_tables_agree (edits : List Edit) :
    (∀ p d kind, (d, kind) ∈ (edited edits).edgesTo p ↔ (p, kind) ∈ (edited edits).edgesFrom d) ∧
    (∀ f, (f ∈ (edited edits).formulas ↔ (edited edits).precedents.contains f = true) ∧
      (edited edits).precedents.get? f = (accepted f edits).map edgesOf) ∧
    (∀ f, ¬ TransGen (edited edits).Reads f f) ∧
    (∀ d p, (edited edits).Reads d p →
      (edited edits).order.contains d = true ∧ (edited edits).order.contains p = true) ∧
    (∀ a b place, (edited edits).order.get? a = some place →
      (edited edits).order.get? b = some place → a = b) ∧
    ∀ a place, (edited edits).order.get? a = some place → place < (edited edits).nextOrder ∧
      ∀ later, (edited (later ++ edits)).order.get? a = some place := by
  have h := represents_edited edits
  have hgraph := DependencyGraph.edited_wellFormed edits
  have hreads : (edited edits).Reads = (DependencyGraph.edited edits).Reads := by
    funext d p
    rw [Reads, DependencyGraph.Reads, h.edgesFrom]
  -- a field with a place has been registered, and the place is where it is in the order
  have hplace {a : FieldId} {place : Nat} (ha : (edited edits).order.get? a = some place) :
      a ∈ (DependencyGraph.edited edits).order ∧ (DependencyGraph.edited edits).slot a = place := by
    rw [h.order] at ha
    exact Option.ite_none_right_eq_some.mp ha |>.imp_right Option.some.inj
  refine ⟨?_, fun f => ⟨?_, ?_⟩, ?_, fun d p hread => ?_, fun a b place ha hb => ?_,
    fun a place ha => ⟨?_, fun later => ?_⟩⟩
  · rw [h.edgesTo, h.edgesFrom]
    exact hgraph.mirrored
  · rw [h.formulas, h.precedents, DependencyGraph.isFormula]
  · rw [h.precedents, accepted_eq, DependencyGraph.reads_edited]
  · rw [hreads]
    exact hgraph.acyclic
  · rw [hreads] at hread
    rw [h.contains_order, h.contains_order, List.contains_iff_mem, List.contains_iff_mem]
    exact hgraph.placed d p hread
  · obtain ⟨hmem, rfl⟩ := hplace ha
    exact (DependencyGraph.slot_inj hmem).mp (hplace hb).2.symm
  · obtain ⟨hmem, rfl⟩ := hplace ha
    rw [h.nextOrder]
    exact DependencyGraph.slot_lt hmem
  · obtain ⟨hmem, rfl⟩ := hplace ha
    obtain ⟨hmem', hslot⟩ := DependencyGraph.slot_of_appended
      (DependencyGraph.prefix_order_edited later edits) hmem
    rw [(represents_edited (later ++ edits)).order, if_pos hmem', hslot]

end IndexedGraph

end ComputedFields
