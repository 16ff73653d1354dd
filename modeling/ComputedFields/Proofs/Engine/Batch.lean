import ComputedFields.Proofs.Engine.Session
import ComputedFields.Proofs.Graph.Schedule
import ComputedFields.Proofs.Store

/-!
# Batches

The plan for a change holds exactly the cells that it affects, each after those it reads; computing
cells in such an order gives each its meaning.
-/

namespace ComputedFields

open Relation

namespace Engine

variable {e : Engine} {den : Cell → Value} {trusted : Cell → Prop} {s : Session}
  {c cell source : Cell} {cells : List Cell}

/-! ## Affected cells -/

/-- A change of a cell affects the cells that read it, directly or through others. -/
def Affected (e : Engine) (source cell : Cell) : Prop := TransGen e.Reads cell source

theorem Affected.hasFormula (h : e.Affected source cell) : e.hasFormula cell.2 = true := by
  obtain ⟨b, hread, -⟩ := TransGen.head'_iff.mp h
  exact hread.hasFormula

theorem Affected.of_reads (hread : e.Reads c cell) (h : cell = source ∨ e.Affected source cell) :
    e.Affected source c := by
  rcases h with rfl | h
  · exact .single hread
  · exact .head hread h

/-- The cells that a change leaves alone read only such cells. -/
theorem closed_not_affected (e : Engine) (source : Cell) :
    e.Closed fun c => c ≠ source ∧ ¬ e.Affected source c := by
  rintro a b ⟨hne, hnot⟩ hread
  refine ⟨?_, fun hb => hnot (.of_reads hread (.inr hb))⟩
  rintro rfl
  exact hnot (.of_reads hread (.inl rfl))

/-- Another store that differs in one cell only leaves the meaning of all cells alone that the
difference does not affect. -/
theorem Sound.denotes_unaffected (hs : e.Sound) {store : Store}
    (hvalues : ∀ c : Cell, c ≠ source → store.fieldValue c.1 c.2 = e.store.fieldValue c.1 c.2)
    (hlinks : ∀ c : Cell, c ≠ source →
      store.linkedRecords c.1 c.2 = e.store.linkedRecords c.1 c.2)
    (hden : Denotes { e with store } den) (hne : c ≠ source) (hc : ¬ e.Affected source c) :
    den c = e.denote c := by
  have hkept := closed_not_affected e source
  refine hs.denotes_congr hkept ?_ ?_ ?_ ?_ hs.denotes hden c ⟨hne, hc⟩
  · exact fun _ _ => rfl
  · exact fun c hc _ => hvalues c hc.1
  · exact fun c hc _ => hlinks c hc.1
  · rfl

theorem Sound.mem_readingCells (hs : e.Sound) : c ∈ e.readingCells cell ↔ e.Reads c cell := by
  obtain ⟨r, f⟩ := c
  rw [hs.reads_iff, readingCells, List.mem_flatMap]
  constructor
  · rintro ⟨⟨g, kind⟩, hedge, hmem⟩
    rw [DependencyGraph.mem_dependents, hs.graph.mirrored] at hedge
    simp only at hmem
    split at hmem
    · cases kind with
      | direct =>
        obtain ⟨rfl, rfl⟩ := Prod.mk.inj (List.mem_singleton.mp hmem)
        exact ⟨.direct, hedge, rfl⟩
      | via link =>
        obtain ⟨record, hrecord, heq⟩ := List.mem_map.mp hmem
        obtain ⟨rfl, rfl⟩ := Prod.mk.inj heq
        exact ⟨.via link, hedge, Store.mem_recordsLinkingTo.mp hrecord⟩
    · simp at hmem
  · rintro ⟨kind, hedge, hlead⟩
    have hform : e.graph.isFormula f = true := DependencyGraph.Reads.isFormula ⟨kind, hedge⟩
    refine ⟨(f, kind), ?_, ?_⟩
    · rw [DependencyGraph.mem_dependents, hs.graph.mirrored]
      exact hedge
    · simp only
      rw [if_pos hform]
      cases kind with
      | direct =>
        obtain rfl : cell.1 = r := hlead
        exact List.mem_singleton.mpr rfl
      | via link => exact List.mem_map.mpr ⟨r, Store.mem_recordsLinkingTo.mpr hlead, rfl⟩

theorem Sound.reached_readingCells (hs : e.Sound) :
    Reached e.readingCells [source] cell ↔ e.Affected source cell := by
  have hrel : (fun a b => b ∈ e.readingCells a) = Function.swap e.Reads := by
    funext a b
    exact propext hs.mem_readingCells
  simp [Reached, hrel, transGen_swap, Affected]

/-! ## Order -/

theorem transCmp_cells (fields : List FieldId) : Std.TransCmp fun a b : Cell =>
    (Ord.compare (fields.idxOf a.2) (fields.idxOf b.2)).then (a.1.compare b.1) := by
  have h : Std.TransCmp (compareLex (compareOn fun c : Cell => fields.idxOf c.2)
      fun a b : Cell => a.1.compare b.1) :=
    haveI : Std.TransCmp fun a b : Cell => a.1.compare b.1 :=
      transCmp_of_key (fun c => c.1.index) fun _ _ => rfl
    inferInstance
  exact h

theorem isLE_then_compare {m n : Nat} {r q : RecordId}
    (h : ((Ord.compare m n).then (r.compare q)).isLE) : m < n ∨ m = n ∧ r.index ≤ q.index := by
  rcases Nat.lt_trichotomy m n with hlt | rfl | hgt
  · exact .inl hlt
  · rw [Nat.compare_eq_eq.mpr rfl] at h
    exact .inr ⟨rfl, Nat.isLE_compare.mp h⟩
  · rw [Nat.compare_eq_gt.mpr hgt] at h
    cases h

/-- Any cells can be put into order. It goes by a rank of their fields, by which no two are alike
and each is above those that it reads, and then by the record. -/
theorem orderCells_ranked (hg : e.graph.Consistent) (cells : List Cell) :
    ∃ (rank : FieldId → Nat) (ordered : List Cell), e.orderCells cells = .ok ordered ∧
      ordered.Perm cells ∧
      (∀ a ∈ cells, ∀ b ∈ cells, rank a.2 = rank b.2 → a.2 = b.2) ∧
      (∀ a ∈ cells, ∀ b ∈ cells, e.graph.Reads a.2 b.2 → rank b.2 < rank a.2) ∧
      ordered.Pairwise fun a b =>
        rank a.2 < rank b.2 ∨ rank a.2 = rank b.2 ∧ a.1.index ≤ b.1.index := by
  obtain ⟨fields, hfields, -⟩ := DependencyGraph.schedule_ok hg (cells.map (·.2))
  obtain ⟨-, hmem, hpair⟩ := DependencyGraph.schedule_mem hg hfields
  have := transCmp_cells fields
  have hin : ∀ c ∈ cells, c.2 ∈ fields := fun c hc => (hmem c.2).mpr (List.mem_map_of_mem hc)
  refine ⟨fields.idxOf, _, by rw [orderCells, hfields]; rfl, Ordered.perm_sort _, ?_, ?_, ?_⟩
  · exact fun a ha _ _ heq => (List.idxOf_inj (hin a ha)).mp heq
  · exact fun a ha b hb hread => idxOf_lt_of_reads (fun f hf => hg.acyclic f (.single hf)) hpair
      (hin a ha) (hin b hb) hread
  · exact (Ordered.pairwise_sort cells).imp isLE_then_compare

/-- Any cells can be put into an order in which none reads a later one. -/
theorem Sound.orderCells_ok (hs : e.Sound) (cells : List Cell) :
    ∃ ordered, e.orderCells cells = .ok ordered ∧ ordered.Perm cells ∧
      ordered.Pairwise fun a b => ¬ e.Reads a b := by
  obtain ⟨rank, ordered, hok, hperm, -, hreads, hpair⟩ := orderCells_ranked hs.graph cells
  refine ⟨ordered, hok, hperm, hpair.imp_of_mem ?_⟩
  intro a b ha hb hle hread
  have hlt := hreads a (hperm.subset ha) b (hperm.subset hb) (hs.reads_fields hread)
  omega

/-! ## Plans -/

/-- The plan for a change that affects few enough cells: all of them, each once, and none before
one that it reads, directly or through others. -/
theorem Sound.plan_ok (hs : e.Sound)
    (hfew : {c | e.Affected source c}.encard ≤ e.options.maxBatchSize) :
    ∃ cells, e.plan source = .ok cells ∧ cells.Nodup ∧ (∀ c, c ∈ cells ↔ e.Affected source c) ∧
      cells.Pairwise fun a b => ¬ TransGen e.Reads a b := by
  cases hreach : reach? e.readingCells e.options.maxBatchSize [source] with
  | none =>
    have hmany := reach?_eq_none_iff.mp hreach
    simp only [hs.reached_readingCells] at hmany
    exact absurd hfew (not_le.mpr hmany)
  | some found =>
    obtain ⟨hnodup, hmem, -⟩ := reach?_some hreach
    obtain ⟨cells, hok, hperm, hpair⟩ := hs.orderCells_ok found
    have hmem' : ∀ c, c ∈ cells ↔ e.Affected source c := fun c =>
      (hperm.mem_iff.trans (hmem c)).trans hs.reached_readingCells
    refine ⟨cells, by rw [plan, hreach]; exact hok, hperm.nodup_iff.mpr hnodup, hmem', ?_⟩
    -- a chain of reads to a cell of the plan runs through cells of the plan
    refine pairwise_transGen (hperm.nodup_iff.mpr hnodup)
      (fun a ha => hs.irrefl a (.single ha)) hpair ?_
    intro a b hab hb
    exact (hmem' a).mpr (.of_reads hab (.inr ((hmem' b).mp hb)))

/-- There is no plan for a change that affects too many cells. -/
theorem Sound.plan_error (hs : e.Sound)
    (hmany : e.options.maxBatchSize < {c | e.Affected source c}.encard) :
    e.plan source =
      .error (.limitExceeded .batch e.options.maxBatchSize (e.options.maxBatchSize + 1)) := by
  have hnone : reach? e.readingCells e.options.maxBatchSize [source] = none := by
    refine reach?_eq_none_iff.mpr ?_
    simpa only [hs.reached_readingCells] using hmany
  rw [plan, hnone]

/-! ## Computation -/

/-- Computing a formula cell that reads trusted cells gives its meaning. Of all cells it alone is
touched, but for those that had no value, and it may be trusted from then on. -/
theorem Sound.run_cons (hs : e.Sound) (hden : e.Explains den) (hclosed : e.Closed trusted)
    (hform : e.hasFormula cell.2 = true) (htrusted : ∀ b, e.Reads cell b → trusted b)
    (h : Knows e den .cached trusted s) :
    ∃ s₁, (∀ rest, e.run (cell :: rest) s =
        (⟨cell.1, cell.2, den cell⟩ :: (e.run rest s₁).1, (e.run rest s₁).2)) ∧
      Grows e den .cached (· = cell) s s₁ ∧ Computed e den s₁ cell ∧
      Knows e den .cached (fun c => trusted c ∨ c = cell) s₁ := by
  obtain ⟨φ, hφ⟩ := formula?_of_hasFormula hform
  have hroot : Gives e den .cached trusted Value (e.compute .cached cell.1 φ.root) _ :=
    hs.compute_gives hclosed fun reference hmem c hc =>
      htrusted c ⟨φ, hφ, reference, by rwa [φ.references_eq], hc⟩
  obtain ⟨hvalue, hg⟩ := hroot s (h.grounded hden)
  have hmeaning : φ.root.eval (e.viewUnder den cell.1) e.options.now = den cell := by
    rw [hden cell hform, valueUnder, hφ]
  rw [hmeaning] at hvalue
  have hg₁ : Grows e den .cached (· = cell) s
      ((e.compute .cached cell.1 φ.root s).2.record cell (den cell)) :=
    (hg.mono fun _ hfalse => hfalse.elim).record hform (.inl rfl)
  have hsettled : ((e.compute .cached cell.1 φ.root s).2.record cell (den cell)).settled.get? cell =
      some (den cell) := record_get?_settled.trans (if_pos rfl)
  refine ⟨_, ?_, hg₁, ⟨hform, hsettled, _, record_get?_cache.trans (if_pos rfl), rfl⟩,
    (h.grows hg₁).trust hsettled⟩
  intro rest
  rw [run, hφ, ← hvalue]
  rfl

/-- Computing formula cells in an order in which each comes after those of them that it reads. -/
theorem Sound.run_gives (hs : e.Sound) (hden : e.Explains den) (hclosed : e.Closed trusted)
    (hform : ∀ a ∈ cells, e.hasFormula a.2 = true)
    (hreads : ∀ a ∈ cells, ∀ b, e.Reads a b → trusted b ∨ b ∈ cells)
    (hpair : cells.Pairwise fun a b => ¬ e.Reads a b) (h : Knows e den .cached trusted s) :
    (e.run cells s).1 = cells.map (fun c => ⟨c.1, c.2, den c⟩) ∧
      Grows e den .cached (· ∈ cells) s (e.run cells s).2 ∧
      ∀ c ∈ cells, Computed e den (e.run cells s).2 c := by
  induction cells generalizing s trusted with
  | nil => exact ⟨rfl, Grows.refl s, by simp⟩
  | cons a rest ih =>
    obtain ⟨hlater, hpair⟩ := List.pairwise_cons.mp hpair
    obtain ⟨hforma, hformrest⟩ := List.forall_mem_cons.mp hform
    -- what the first cell reads is trusted: it neither reads itself nor a later one
    have htrusted : ∀ b, e.Reads a b → trusted b := by
      intro b hb
      rcases hreads a (by simp) b hb with hb' | hmem
      · exact hb'
      · rcases List.mem_cons.mp hmem with rfl | hmem
        · exact absurd (.single hb) (hs.irrefl b)
        · exact absurd hb (hlater b hmem)
    obtain ⟨s₁, hrun, hg₁, hfirst, hknows⟩ := hs.run_cons hden hclosed hforma htrusted h
    have hclosed₁ : e.Closed fun c => trusted c ∨ c = a := by
      rintro x y (hx | rfl) hread
      · exact .inl (hclosed x y hx hread)
      · exact .inl (htrusted y hread)
    have hreads₁ : ∀ x ∈ rest, ∀ y, e.Reads x y → (trusted y ∨ y = a) ∨ y ∈ rest := by
      intro x hx y hread
      rcases hreads x (List.mem_cons_of_mem _ hx) y hread with hy | hy
      · exact .inl (.inl hy)
      · rcases List.mem_cons.mp hy with rfl | hy
        · exact .inl (.inr rfl)
        · exact .inr hy
    obtain ⟨hbatch, hg₂, hcomputed⟩ := ih hclosed₁ hformrest hreads₁ hpair hknows
    have hall : Grows e den .cached (· ∈ a :: rest) s (e.run rest s₁).2 :=
      (hg₁.mono fun c hc => hc ▸ List.mem_cons_self).trans
        (hg₂.mono fun c hc => List.mem_cons_of_mem _ hc)
    rw [hrun]
    refine ⟨by rw [hbatch, List.map_cons], hall, ?_⟩
    intro c hc
    rcases List.mem_cons.mp hc with rfl | hc
    · rcases hg₂ c with hu | ⟨-, hc⟩
      · exact hu.computed hfirst
      · exact hc
    · exact hcomputed c hc

/-! ## Changes -/

/-- What a session for a change of a cell starts from. -/
def changeSession (e : Engine) (source : Cell) (value : Value) : Session :=
  (Session.mk .empty e.cache).settle source value

theorem changeSession_settled {value : Value} :
    (e.changeSession source value).settled.get? c = if c = source then some value else none :=
  Entries.get?_set _ _ _ _

/-- A change starts from what is right, if the cache is for the cells that it leaves alone. -/
theorem Knows.change (hstored : ∀ c, c ≠ source → e.hasFormula c.2 = false →
      e.store.fieldValue c.1 c.2 = den c)
    (hcached : ∀ c entry, ¬ e.Affected source c → e.hasFormula c.2 = true →
      e.cache.get? c.1 c.2 = some entry → entry.value = den c) :
    Knows e den .cached (fun c => ¬ e.Affected source c) (e.changeSession source (den source)) := by
  have hsettled : ∀ c v, (e.changeSession source (den source)).settled.get? c = some v →
      v = den c := by
    intro c v hv
    rw [changeSession_settled] at hv
    split at hv
    · rename_i hc
      rw [hc]
      exact (Option.some.inj hv).symm
    · cases hv
  refine ⟨fun c _ => hsettled c, ?_, ?_⟩
  · intro c hc hform v hv
    rcases of_known? hv with hv | ⟨entry, hentry, rfl⟩
    · exact hsettled c v hv
    · exact hcached c entry hc hform hentry
  · intro c hplain hnone
    refine hstored c ?_ hplain
    rintro rfl
    rw [changeSession_settled, if_pos rfl] at hnone
    cases hnone

/-- What a change of a cell without a formula does, if it affects few enough cells. `den` is what
the cells are worth from then on. -/
theorem Sound.changed_ok (hs : e.Sound) (source : Cell) (hsource : e.hasFormula source.2 = false)
    (hfew : {c | e.Affected source c}.encard ≤ e.options.maxBatchSize) (hden : e.Explains den)
    (h : Knows e den .cached (fun c => ¬ e.Affected source c)
      (e.changeSession source (den source))) :
    ∃ (cells : List Cell) (s' : Session), e.changed source.1 source.2 (den source) =
        .ok (cells.map fun c => ⟨c.1, c.2, den c⟩, { e with cache := s'.cache }) ∧
      (cells.Nodup ∧ (∀ c, c ∈ cells ↔ e.Affected source c) ∧
        cells.Pairwise fun a b => ¬ TransGen e.Reads a b) ∧
      Grows e den .cached (· ∈ cells) (e.changeSession source (den source)) s' ∧
      ∀ c ∈ cells, Computed e den s' c := by
  obtain ⟨cells, hplan, hnodup, hmem, hpair⟩ := hs.plan_ok hfew
  -- what affected cells are read by is affected, so the others are trusted throughout
  have hclosed : e.Closed fun c => ¬ e.Affected source c :=
    fun a b ha hread hb => ha (.of_reads hread (.inr hb))
  obtain ⟨hbatch, hg, hcomputed⟩ := hs.run_gives hden hclosed
    (fun a ha => ((hmem a).mp ha).hasFormula)
    (fun a _ b _ => by
      by_cases hb : e.Affected source b
      · exact .inr ((hmem b).mpr hb)
      · exact .inl hb)
    (hpair.imp fun hab hread => hab (.single hread)) h
  refine ⟨cells, _, ?_, ⟨hnodup, hmem, hpair⟩, hg, hcomputed⟩
  rw [changed, hsource, hplan, ← hbatch]
  rfl

/-- A change that affects too many cells fails. -/
theorem Sound.changed_error (hs : e.Sound) (source : Cell) (hsource : e.hasFormula source.2 = false)
    (hmany : e.options.maxBatchSize < {c | e.Affected source c}.encard) (value : Value) :
    e.changed source.1 source.2 value =
      .error (.limitExceeded .batch e.options.maxBatchSize (e.options.maxBatchSize + 1)) := by
  rw [changed, hsource, hs.plan_error hmany]
  rfl

end Engine

end ComputedFields
