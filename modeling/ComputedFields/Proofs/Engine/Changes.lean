import ComputedFields.Proofs.Engine.Coherence

/-!
# What a change computes

A change is followed to exactly the cells that it affects. Each is computed once, after those that
it reads, with the value it has once the change is stored, and nothing else in the cache is lost.
-/

namespace ComputedFields

open Relation

/-- The cell of a computed value. -/
def Recomputed.cell (r : Recomputed) : Cell := (r.record, r.field)

/-- A batch for a change of a cell: the cells that it affects, each once and none before one that
it reads, directly or through others, with the values that they come to have. -/
structure Batch.Exact (batch : Batch) (e : Engine) (source : Cell) (den : Cell → Value) : Prop where
  once : (batch.map Recomputed.cell).Nodup
  mem_iff : ∀ c, c ∈ batch.map Recomputed.cell ↔ e.Affected source c
  ordered : batch.Pairwise fun a b => ¬ TransGen e.Reads a.cell b.cell
  values : ∀ r ∈ batch, r.value = den r.cell

namespace Engine

variable {e : Engine} {source : Cell} {record : RecordId} {f : FieldId} {value : Value}
  {was den : Cell → Value}

theorem exact_of_cells {cells : List Cell} (hnodup : cells.Nodup)
    (hmem : ∀ c, c ∈ cells ↔ e.Affected source c)
    (hpair : cells.Pairwise fun a b => ¬ TransGen e.Reads a b) :
    Batch.Exact (cells.map fun c => ⟨c.1, c.2, den c⟩) e source den := by
  have hcells : (cells.map fun c => (⟨c.1, c.2, den c⟩ : Recomputed)).map Recomputed.cell =
      cells := by
    rw [List.map_map]
    exact List.map_id' cells
  refine ⟨hcells.symm ▸ hnodup, fun c => ?_, List.pairwise_map.mpr hpair, fun r hr => ?_⟩
  · rw [hcells]
    exact hmem c
  · obtain ⟨c, -, rfl⟩ := List.mem_map.mp hr
    rfl

/-- What cells come to be worth when a value is stored in a cell without a formula: that cell the
value, other cells without a formula what they hold, and formula cells what they compute. -/
theorem Denotes.setValue (hplain : e.hasFormula f = false)
    (hden : Denotes { e with store := e.store.setValue record f value } den) :
    den (record, f) = value ∧
      (∀ c, c ≠ (record, f) → e.hasFormula c.2 = false → e.store.fieldValue c.1 c.2 = den c) ∧
      e.Explains den := by
  have hplain' : ∀ c : Cell, e.hasFormula c.2 = false →
      den c = (e.store.setValue record f value).fieldValue c.1 c.2 := fun c hc =>
    (hden c).trans (valueUnder_of_not_hasFormula hc)
  refine ⟨?_, ?_, ?_⟩
  · rw [hplain' (record, f) hplain, Store.fieldValue_setValue, if_pos rfl]
  · intro c hne hc
    rw [hplain' c hc, Store.fieldValue_setValue, if_neg hne]
  · intro c hc
    obtain ⟨φ, hφ⟩ := formula?_of_hasFormula hc
    have hvalue := hden c
    unfold valueUnder at hvalue ⊢
    rw [hφ]
    rwa [show formula? { e with store := e.store.setValue record f value } c.2 = some φ from hφ]
      at hvalue

/-- A change of a cell without a formula, in a state whose cache was right before the change,
computes exactly the cells that it affects, in order and with the values that they have once the
new value is stored. All other cached values stay, with their versions. It fails if there are too
many cells. -/
theorem changed_exact (h : Reachable e) (hplain : e.hasFormula f = false) {before : Store}
    (hvalues : ∀ c : Cell, c ≠ (record, f) →
      before.fieldValue c.1 c.2 = e.store.fieldValue c.1 c.2)
    (hlinks : ∀ c : Cell, c ≠ (record, f) →
      before.linkedRecords c.1 c.2 = e.store.linkedRecords c.1 c.2)
    (hwas : Denotes { e with store := before } was)
    (hcache : ∀ (c : Cell) entry, e.hasFormula c.2 = true →
      e.cache.get? c.1 c.2 = some entry → entry.value = was c)
    (hden : Denotes { e with store := e.store.setValue record f value } den) :
    ({c | e.Affected (record, f) c}.encard ≤ e.options.maxBatchSize →
      ∃ batch e', e.changed record f value = .ok (batch, e') ∧
        batch.Exact e (record, f) den ∧
        ∀ (c : Cell) entry, ¬ e.Affected (record, f) c →
          e.cache.get? c.1 c.2 = some entry → e'.cache.get? c.1 c.2 = some entry) ∧
    (e.options.maxBatchSize < {c | e.Affected (record, f) c}.encard →
      e.changed record f value =
        .error (.limitExceeded .batch e.options.maxBatchSize (e.options.maxBatchSize + 1))) := by
  have hs := h.sound
  obtain ⟨rfl, hstored, hexplains⟩ := hden.setValue hplain
  refine ⟨fun hfew => ?_, fun hmany => hs.changed_error (record, f) hplain hmany _⟩
  have hknows : Knows e den .cached (fun c => ¬ e.Affected (record, f) c)
      (e.changeSession (record, f) (den (record, f))) := by
    refine Knows.change hstored fun c entry hc hform hentry => ?_
    have hne : c ≠ (record, f) := by
      rintro rfl
      rw [hplain] at hform
      cases hform
    -- both stores agree with this one on all that the cell depends on
    have hsame := hs.denotes_unaffected hvalues hlinks hwas hne hc
    have hsame' := hs.denotes_unaffected
      (fun c hne => (Store.fieldValue_setValue _).trans (if_neg hne)) (fun _ _ => rfl) hden hne hc
    rw [hcache c entry hform hentry, hsame, hsame']
  obtain ⟨cells, s', hok, ⟨hnodup, hmem, hpair⟩, hg, -⟩ :=
    hs.changed_ok (record, f) hplain hfew hexplains hknows
  refine ⟨_, _, hok, exact_of_cells hnodup hmem hpair, ?_⟩
  intro c entry hc hentry
  rcases hg c with hu | ⟨hwas' | hnone, -⟩
  · exact hu.2.trans hentry
  · exact absurd ((hmem c).mp hwas') hc
  · -- a cached cell had a value
    have hnocache : e.cache.get? c.1 c.2 = none := not_cached_of_known? hnone
    rw [hentry] at hnocache
    cases hnocache

theorem reachable_priceEngine : priceEngine.Reachable :=
  .operate (.operate (.start _ _ _) (.define ⟨1⟩ labelSource)) (.read ⟨0⟩ ⟨1⟩)

theorem coherent_priceEngine : priceEngine.Coherent :=
  ((Coherent.new _ _ _).perform (.define ⟨1⟩ labelSource)).perform (.read ⟨0⟩ ⟨1⟩)

theorem isSome_changed_price :
    (priceEngine.changed ⟨0⟩ ⟨0⟩ (.text "ten")).toOption.isSome = true := by
  cbv

theorem changed_price_exact :
    ∃ batch e', priceEngine.changed ⟨0⟩ ⟨0⟩ (.text "ten") = .ok (batch, e') ∧
      batch.Exact priceEngine (⟨0⟩, ⟨0⟩) (denote
        { priceEngine with store := priceEngine.store.setValue ⟨0⟩ ⟨0⟩ (.text "ten") }) := by
  have hplain : priceEngine.hasFormula ⟨0⟩ = false := by cbv
  have hsound := reachable_priceEngine.sound
  have hden : Sound
      { priceEngine with store := priceEngine.store.setValue ⟨0⟩ ⟨0⟩ (.text "ten") } :=
    hsound.of_eq rfl rfl rfl
  have hwas : Denotes { priceEngine with store := priceEngine.store } priceEngine.denote :=
    hsound.denotes
  obtain ⟨hok, herror⟩ := changed_exact reachable_priceEngine hplain
    (fun _ _ => rfl) (fun _ _ => rfl) hwas
    (fun c entry _ hentry => coherent_priceEngine.values c entry hentry) hden.denotes
  have hfew : {c | priceEngine.Affected (⟨0⟩, ⟨0⟩) c}.encard ≤
      priceEngine.options.maxBatchSize := by
    by_contra hmany
    have hsome := isSome_changed_price
    rw [herror (not_le.mp hmany)] at hsome
    cases hsome
  obtain ⟨batch, e', hbatch, hexact, -⟩ := hok hfew
  exact ⟨batch, e', hbatch, hexact⟩

end Engine

end ComputedFields
