import ComputedFields.Proofs.Engine.Histories

/-!
# Fresh reads

A fresh read computes the formula cells upstream of the cell that is read, all of them and no
others, and never looks at what the cache holds for them. So it gives the right value whatever has
happened to the store and the cache.
-/

namespace ComputedFields

open Relation

namespace Engine

variable {e : Engine} {a b c cell : Cell} {s s' s'' : Session} {den : Cell → Value}

/-! ## Upstream -/

/-- A cell reads a cell along an edge of the graph. -/
def Follows (e : Engine) (a b : Cell) : Prop :=
  ∃ kind : EdgeKind, (b.2, kind) ∈ e.graph.precedents a.2 ∧ kind.Leads e.store a.1 b.1

/-- A cell can be reached from a cell along edges of the graph. Every cell is upstream of itself. -/
def Upstream (e : Engine) : Cell → Cell → Prop := ReflTransGen e.Follows

theorem Sound.follows_eq (hs : e.Sound) : e.Follows = e.Reads := by
  funext a b
  refine propext ?_
  rw [hs.reads_iff]
  simp only [Follows, DependencyGraph.mem_precedents]

theorem Sound.upstream_eq (hs : e.Sound) : e.Upstream = ReflTransGen e.Reads := by
  rw [Upstream, hs.follows_eq]

/-! ## What a fresh read settles -/

theorem known?_fresh : s.known? .fresh c = s.settled.get? c := by
  unfold Session.known?
  cases s.settled.get? c <;> rfl

/-- With each settled cell all formula cells that it reads are settled. -/
def Complete (e : Engine) (s : Session) : Prop :=
  ∀ a b, s.settled.contains a = true → b ∈ e.inputs a → s.settled.contains b = true

/-- A step of a session that settles cells, and with each of them all formula cells that it
reads. -/
def Settles (e : Engine) (s s' : Session) : Prop :=
  (∀ c, s.settled.contains c = true → s'.settled.contains c = true) ∧
    (Complete e s → Complete e s')

theorem Settles.refl (s : Session) : Settles e s s := ⟨fun _ hc => hc, id⟩

theorem Settles.trans (h : Settles e s s') (h' : Settles e s' s'') : Settles e s s'' :=
  ⟨fun c hc => h'.1 c (h.1 c hc), fun hs => h'.2 (h.2 hs)⟩

theorem contains_record {v : Value} :
    (s.record cell v).settled.contains c = true ↔ c = cell ∨ s.settled.contains c = true := by
  rw [Entries.contains, record_get?_settled]
  by_cases hc : c = cell <;> simp [hc, Entries.contains]

/-- A cell may be recorded once all its inputs are settled. -/
theorem Settles.record (h : Settles e s s') {v : Value}
    (hinputs : ∀ b ∈ e.inputs cell, s'.settled.contains b = true) :
    Settles e s (s'.record cell v) := by
  refine ⟨fun c hc => contains_record.mpr (.inr (h.1 c hc)), fun hs a b ha hb => ?_⟩
  refine contains_record.mpr (.inr ?_)
  rcases contains_record.mp ha with rfl | ha
  · exact hinputs b hb
  · exact h.2 hs a b ha hb

/-- Resolving a formula cell anew settles it, after its inputs. -/
theorem Sound.resolve_settles (hs : e.Sound) (limit : Nat) (hform : e.hasFormula cell.2 = true)
    (hheight : e.graph.height cell.2 < limit) :
    Settles e s (e.resolve .fresh limit s cell) ∧
      (e.resolve .fresh limit s cell).settled.contains cell = true := by
  induction limit generalizing s cell with
  | zero => exact absurd hheight (Nat.not_lt_zero _)
  | succ limit ih =>
    obtain ⟨φ, hφ⟩ := formula?_of_hasFormula hform
    rw [resolve, hφ]
    have hkeep : ∀ s s', Settles e s s' → (True → True) ∧
        ∀ c, (s.known? .fresh c).isSome = true → (s'.known? .fresh c).isSome = true := by
      intro s s' h
      refine ⟨id, fun c hc => ?_⟩
      rw [known?_fresh] at hc ⊢
      exact h.1 c hc
    -- inputs are lower than the cell, so one step fewer is enough for them
    have hstep : ∀ s, True → ∀ c ∈ (e.inputs cell).reverse, (s.known? .fresh c).isSome = false →
        Settles e s (e.resolve .fresh limit s c) ∧
          ((e.resolve .fresh limit s c).known? .fresh c).isSome = true := by
      intro s _ c hc _
      obtain ⟨hread, hform⟩ := hs.mem_inputs.mp (List.mem_reverse.mp hc)
      have hlower := hs.height_lt hread hform
      rw [known?_fresh]
      exact ih hform (by omega)
    obtain ⟨hsettles, hdone⟩ := foldl_done (s := s) (e.inputs cell).reverse Settles.refl
      (fun _ _ _ h h' => h.trans h') hkeep hstep trivial
    refine ⟨hsettles.record fun b hb => ?_, contains_record.mpr (.inl rfl)⟩
    have hb := hdone b (List.mem_reverse.mpr hb)
    rwa [known?_fresh] at hb

/-- Where settled cells are complete, all formula cells upstream of them are settled. -/
theorem Complete.upstream (hs : e.Sound) (h : Complete e s) (hcell : s.settled.contains cell = true)
    (hup : ReflTransGen e.Reads cell c) (hform : e.hasFormula c.2 = true) :
    s.settled.contains c = true := by
  induction hup with
  | refl => exact hcell
  | tail _ hread ih => exact h _ _ (ih hread.hasFormula) (hs.mem_inputs.mpr ⟨hread, hform⟩)

/-- A fresh read trusts nothing, so it works with right values whatever the cache holds. -/
theorem Denotes.knows_fresh (hden : e.Denotes den) (cache : ValueCache) :
    Knows e den .fresh (fun _ => True) ⟨.empty, cache⟩ where
  settled := by
    intro c _ v hv
    cases hv
  known := by
    intro c _ _ v hv
    rw [known?_fresh] at hv
    cases hv
  stored := by
    intro c hplain _
    rw [hden c, valueUnder_of_not_hasFormula hplain]

/-- A fresh read settles all formula cells upstream. -/
theorem Sound.valueOf_settles (hs : e.Sound) (hup : ReflTransGen e.Reads cell c)
    (hform : e.hasFormula c.2 = true) (cache : ValueCache) :
    (e.valueOf .fresh cell ⟨.empty, cache⟩).2.settled.contains c = true := by
  -- only formula cells read, so the cell that is read is one
  have hcell : e.hasFormula cell.2 = true := by
    rcases hup.cases_head with rfl | ⟨b, hread, -⟩
    · exact hform
    · exact hread.hasFormula
  have hvalue : (e.valueOf .fresh cell ⟨.empty, cache⟩).2 =
      e.resolve .fresh e.formulas.size ⟨.empty, cache⟩ cell := by
    rw [valueOf_eq]
    simp [hcell, known?_fresh]
  obtain ⟨⟨-, hcomplete⟩, hsettled⟩ :=
    hs.resolve_settles (s := ⟨.empty, cache⟩) e.formulas.size hcell (hs.height_lt_size hcell)
  rw [hvalue]
  refine (hcomplete ?_).upstream hs hsettled hup hform
  intro a b ha
  cases ha

/-- A fresh read gives the meaning of a cell, caches that of all formula cells upstream, and leaves
the rest of the cache alone. -/
theorem Sound.valueOf_fresh (hs : e.Sound) (hden : e.Denotes den) (cell : Cell)
    (cache : ValueCache) :
    (e.valueOf .fresh cell ⟨.empty, cache⟩).1 = den cell ∧ ∀ c : Cell,
      let entry? := (e.valueOf .fresh cell ⟨.empty, cache⟩).2.cache.get? c.1 c.2
      (ReflTransGen e.Reads cell c → e.hasFormula c.2 = true →
        ∃ entry, entry? = some entry ∧ entry.value = den c) ∧
      (¬ (ReflTransGen e.Reads cell c ∧ e.hasFormula c.2 = true) →
        entry? = cache.get? c.1 c.2) := by
  obtain ⟨hvalue, hgrows⟩ := hs.valueOf_gives (closed_all e) trivial
    ⟨.empty, cache⟩ ((hden.knows_fresh cache).grounded hden.explains)
  refine ⟨hvalue, fun c => ⟨fun hup hform => ?_, fun hnot => ?_⟩⟩
  · rcases hgrows c with hu | ⟨-, -, -, hentry⟩
    · -- a cell that is settled has been touched
      have hsettled := hs.valueOf_settles hup hform cache
      rw [Entries.contains, hu.1] at hsettled
      cases hsettled
    · exact hentry
  · have hclosed : e.Closed (ReflTransGen e.Reads cell) := fun a b ha hread => ha.tail hread
    exact (valueOf_keeps (hs.contained hclosed)
      (keeps_untouched (fun hform hup => hnot ⟨hup, hform⟩) ⟨.empty, cache⟩) .refl
      (Untouched.refl _ c)).2

/-! ## Any store, any cache -/

/-- The engine with other records and another cache. -/
def holding (e : Engine) (store : Store) (cache : ValueCache) : Engine := { e with store, cache }

/-- Whatever has happened to an engine and whatever its store and its cache hold: there is one
assignment of meanings to cells, the same for all caches, and a fresh read gives the meaning of the
cell. It leaves an entry with its meaning for each formula cell upstream, and the rest of the cache
as it was. -/
theorem readFresh_exact (schema : Schema) (store : Store) (options : EngineOptions)
    (events : List Event) (current : Store) :
    let e := fun cache => (history schema store options events).holding current cache
    ∃ den : Cell → Value, ∀ cache, (e cache).Denotes den ∧
      (∀ den', (e cache).Denotes den' → den' = den) ∧
      ∀ record f, ((e cache).readFresh record f).1 = den (record, f) ∧
        ∃ after, ((e cache).readFresh record f).2 = e after ∧ ∀ c : Cell,
          ((e cache).Upstream (record, f) c → (e cache).hasFormula c.2 = true →
            ∃ entry, after.get? c.1 c.2 = some entry ∧ entry.value = den c) ∧
          (¬ ((e cache).Upstream (record, f) c ∧ (e cache).hasFormula c.2 = true) →
            after.get? c.1 c.2 = cache.get? c.1 c.2) := by
  intro e
  have hsound := (history_wired schema store options events).sound
  have hs : ∀ cache, (e cache).Sound := fun cache => hsound.of_eq rfl rfl rfl
  -- meanings depend on the store, but not on the cache
  have hden : ∀ cache, (e cache).Denotes (e .empty).denote := fun _ => (hs .empty).denotes
  refine ⟨(e .empty).denote, fun cache => ⟨hden cache, fun den' => ?_, fun record f => ?_⟩⟩
  · exact (hs cache).denotes_unique (hden cache)
  · obtain ⟨hvalue, hcache⟩ := (hs cache).valueOf_fresh (hden cache) (record, f) cache
    rw [(hs cache).upstream_eq]
    exact ⟨hvalue, _, rfl, hcache⟩

/-- A cache with a value that no price has given. -/
def staleCache : ValueCache := (ValueCache.empty.insert ⟨0⟩ ⟨1⟩ (.text "old!")).1

theorem readFresh_staleCache :
    (((history priceSchema .empty newYear labelled).holding tenStore staleCache).read ⟨0⟩ ⟨1⟩).1 =
        .text "old!" ∧
      (((history priceSchema .empty newYear labelled).holding tenStore staleCache).readFresh
        ⟨0⟩ ⟨1⟩).1 = .text "ten!" := by
  obtain ⟨den, hexact⟩ := readFresh_exact priceSchema .empty newYear labelled tenStore
  have hempty : (((history priceSchema .empty newYear labelled).holding tenStore .empty).readFresh
      ⟨0⟩ ⟨1⟩).1 = .text "ten!" := by cbv
  have hden := ((hexact .empty).2.2 ⟨0⟩ ⟨1⟩).1
  have hstale := ((hexact staleCache).2.2 ⟨0⟩ ⟨1⟩).1
  exact ⟨by cbv, (hstale.trans hden.symm).trans hempty⟩

end Engine

end ComputedFields
