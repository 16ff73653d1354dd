import ComputedFields.Proofs.Engine.Meaning

/-!
# Sessions

What holds in the course of a session: all settled values are right, and what the cache holds for
the cells that are trusted is right. Every read gives the meaning of its cell, and changes nothing
but cells that had no value before, which get the right one.
-/

namespace ComputedFields

namespace Engine

variable {e : Engine} {den : Cell → Value} {mode : ReadMode} {trusted allowed : Cell → Prop}
  {s s' s'' : Session} {c cell : Cell}

/-! ## What a session knows -/

/-- The assignment is right on formula cells, given what it is on others. -/
def Explains (e : Engine) (den : Cell → Value) : Prop :=
  ∀ c, e.hasFormula c.2 = true → den c = e.valueUnder den c

theorem Denotes.explains (h : e.Denotes den) : e.Explains den := fun c _ => h c

/-- No read leads from a trusted cell to one that is not. -/
def Closed (e : Engine) (trusted : Cell → Prop) : Prop :=
  ∀ a b, trusted a → e.Reads a b → trusted b

theorem closed_all (e : Engine) : e.Closed fun _ => True := fun _ _ _ _ => trivial

/-- The values that a session works with are right: those settled of trusted cells, those it knows
of trusted formula cells, and those stored, unless another one is settled. -/
structure Knows (e : Engine) (den : Cell → Value) (mode : ReadMode) (trusted : Cell → Prop)
    (s : Session) : Prop where
  settled : ∀ c, trusted c → ∀ v, s.settled.get? c = some v → v = den c
  known : ∀ c, trusted c → e.hasFormula c.2 = true → ∀ v, s.known? mode c = some v → v = den c
  stored : ∀ c, e.hasFormula c.2 = false → s.settled.get? c = none →
    e.store.fieldValue c.1 c.2 = den c

/-- A session can get every trusted cell right: what it knows is, and what it lacks is worth what
its formula gives. -/
structure Grounded (e : Engine) (den : Cell → Value) (mode : ReadMode) (trusted : Cell → Prop)
    (s : Session) : Prop extends Knows e den mode trusted s where
  missing : ∀ c, trusted c → e.hasFormula c.2 = true → s.known? mode c = none →
    den c = e.valueUnder den c

/-- Nothing happened to a cell between two states of a session. -/
def Untouched (s s' : Session) (c : Cell) : Prop :=
  s'.settled.get? c = s.settled.get? c ∧ s'.cache.get? c.1 c.2 = s.cache.get? c.1 c.2

/-- A cell is settled and cached with its meaning. -/
def Computed (e : Engine) (den : Cell → Value) (s : Session) (c : Cell) : Prop :=
  e.hasFormula c.2 = true ∧ s.settled.get? c = some (den c) ∧
    ∃ entry, s.cache.get? c.1 c.2 = some entry ∧ entry.value = den c

/-- Every cell that a session touched was allowed or without a value, and has been computed. -/
def Grows (e : Engine) (den : Cell → Value) (mode : ReadMode) (allowed : Cell → Prop)
    (s s' : Session) : Prop :=
  ∀ c, Untouched s s' c ∨ (allowed c ∨ s.known? mode c = none) ∧ Computed e den s' c

theorem Untouched.refl (s : Session) (c : Cell) : Untouched s s c := ⟨rfl, rfl⟩

theorem Untouched.trans (h : Untouched s s' c) (h' : Untouched s' s'' c) : Untouched s s'' c :=
  ⟨h'.1.trans h.1, h'.2.trans h.2⟩

theorem Untouched.known?_eq (h : Untouched s s' c) : s'.known? mode c = s.known? mode c := by
  simp only [Session.known?, h.1, h.2]

theorem Untouched.computed (h : Untouched s s' c) (hc : Computed e den s c) :
    Computed e den s' c := by
  obtain ⟨hform, hsettled, entry, hentry, hvalue⟩ := hc
  exact ⟨hform, h.1.trans hsettled, entry, h.2.trans hentry, hvalue⟩

theorem Grows.refl (s : Session) : Grows e den mode allowed s s :=
  fun c => .inl (Untouched.refl s c)

theorem Grows.trans (h : Grows e den mode allowed s s') (h' : Grows e den mode allowed s' s'') :
    Grows e den mode allowed s s'' := by
  intro c
  rcases h c with hu | ⟨hwas, hc⟩
  · rcases h' c with hu' | ⟨hwas', hc'⟩
    · exact .inl (hu.trans hu')
    · rw [hu.known?_eq] at hwas'
      exact .inr ⟨hwas', hc'⟩
  · rcases h' c with hu' | ⟨-, hc'⟩
    · exact .inr ⟨hwas, hu'.computed hc⟩
    · exact .inr ⟨hwas, hc'⟩

theorem Grows.mono {allowed' : Cell → Prop} (h : Grows e den mode allowed s s')
    (hsub : ∀ c, allowed c → allowed' c) : Grows e den mode allowed' s s' :=
  fun c => (h c).imp_right fun hc => ⟨hc.1.imp_left (hsub c), hc.2⟩

/-- An entry of the cache was there before, or is the meaning of a formula cell. -/
theorem Grows.of_entry (h : Grows e den mode allowed s s') {entry : CachedValue}
    (hentry : s'.cache.get? c.1 c.2 = some entry) :
    s.cache.get? c.1 c.2 = some entry ∨ e.hasFormula c.2 = true ∧ entry.value = den c := by
  rcases h c with hu | ⟨-, hform, -, entry', hentry', hvalue⟩
  · exact .inl (hu.2.symm.trans hentry)
  · cases hentry.symm.trans hentry'
    exact .inr ⟨hform, hvalue⟩

theorem known?_of_settled {v : Value} (h : s.settled.get? c = some v) :
    s.known? mode c = some v := by
  simp [Session.known?, h]

/-- A known value is settled or cached. -/
theorem of_known? {v : Value} (h : s.known? mode c = some v) :
    s.settled.get? c = some v ∨ ∃ entry, s.cache.get? c.1 c.2 = some entry ∧ entry.value = v := by
  unfold Session.known? at h
  split at h
  · rename_i hsettled
    exact .inl (hsettled.trans h)
  · exact .inr (Option.map_eq_some_iff.mp h)
  · cases h

theorem not_cached_of_known? (h : s.known? .cached c = none) : s.cache.get? c.1 c.2 = none := by
  unfold Session.known? at h
  split at h
  · cases h
  · exact Option.map_eq_none_iff.mp h
  · simp_all

/-- A known cell stays known. -/
theorem Grows.isSome_known? (h : Grows e den mode allowed s s')
    (hc : (s.known? mode c).isSome = true) : (s'.known? mode c).isSome = true := by
  rcases h c with hu | ⟨-, -, hsettled, -⟩
  · rw [hu.known?_eq]
    exact hc
  · rw [known?_of_settled hsettled]
    rfl

/-- A session goes on knowing what is right. -/
theorem Knows.grows (h : Knows e den mode trusted s) (hg : Grows e den mode allowed s s') :
    Knows e den mode trusted s' := by
  constructor
  · intro c hc v hv
    rcases hg c with hu | ⟨-, -, hsettled, -⟩
    · exact h.settled c hc v (hu.1 ▸ hv)
    · exact Option.some.inj (hv.symm.trans hsettled)
  · intro c hc hform v hv
    rcases hg c with hu | ⟨-, -, hsettled, -⟩
    · exact h.known c hc hform v (hu.known?_eq ▸ hv)
    · exact Option.some.inj (hv.symm.trans (known?_of_settled hsettled))
  · intro c hplain hnone
    rcases hg c with hu | ⟨-, hform, -⟩
    · exact h.stored c hplain (hu.1 ▸ hnone)
    · rw [hplain] at hform
      cases hform

/-- A settled cell may be trusted from then on. -/
theorem Knows.trust (h : Knows e den mode trusted s) (hc : s.settled.get? cell = some (den cell)) :
    Knows e den mode (fun c => trusted c ∨ c = cell) s := by
  refine ⟨?_, ?_, h.stored⟩
  · rintro c (hc' | rfl) v hv
    · exact h.settled c hc' v hv
    · exact Option.some.inj (hv.symm.trans hc)
  · rintro c (hc' | rfl) hform v hv
    · exact h.known c hc' hform v hv
    · exact Option.some.inj (hv.symm.trans (known?_of_settled hc))

/-- Where every formula cell is worth what its formula gives, knowing what is right is enough. -/
theorem Knows.grounded (h : Knows e den mode trusted s) (hden : e.Explains den) :
    Grounded e den mode trusted s :=
  ⟨h, fun c _ hform _ => hden c hform⟩

theorem Grounded.grows (h : Grounded e den mode trusted s) (hg : Grows e den mode allowed s s') :
    Grounded e den mode trusted s' := by
  refine ⟨h.toKnows.grows hg, fun c hc hform hnone => h.missing c hc hform ?_⟩
  -- nothing known is forgotten
  by_contra hknown
  have := hg.isSome_known? (Option.isSome_iff_ne_none.mpr hknown)
  rw [hnone] at this
  cases this

/-! ## Recording -/

theorem record_get?_settled {v : Value} :
    (s.record cell v).settled.get? c = if c = cell then some v else s.settled.get? c :=
  Entries.get?_set _ _ _ _

theorem record_get?_cache {v : Value} : (s.record cell v).cache.get? c.1 c.2 =
    if c = cell then some ⟨cell.1, cell.2, v, s.cache.clock + 1⟩ else s.cache.get? c.1 c.2 :=
  Entries.get?_set _ _ _ _

theorem record_known? {v : Value} :
    (s.record cell v).known? mode c = if c = cell then some v else s.known? mode c := by
  by_cases hc : c = cell
  · rw [if_pos hc]
    exact known?_of_settled (record_get?_settled.trans (if_pos hc))
  · simp only [Session.known?, record_get?_settled, record_get?_cache, if_neg hc]

theorem Untouched.record {v : Value} (hne : c ≠ cell) : Untouched s (s.record cell v) c :=
  ⟨record_get?_settled.trans (if_neg hne), record_get?_cache.trans (if_neg hne)⟩

/-- Recording the meaning of a formula cell touches this cell alone. -/
theorem Grows.record (h : Grows e den mode allowed s s') (hform : e.hasFormula cell.2 = true)
    (hwas : allowed cell ∨ s.known? mode cell = none) :
    Grows e den mode allowed s (s'.record cell (den cell)) := by
  intro c
  by_cases hc : c = cell
  · subst hc
    refine .inr ⟨hwas, hform, ?_, ?_⟩
    · rw [record_get?_settled, if_pos rfl]
    · exact ⟨_, record_get?_cache.trans (if_pos rfl), rfl⟩
  · have hu : Untouched s' (s'.record cell (den cell)) c := .record hc
    rcases h c with hu' | ⟨hwas', hc'⟩
    · exact .inl (hu'.trans hu)
    · exact .inr ⟨hwas', hu.computed hc'⟩

/-! ## Looking at known cells -/

theorem look_of_stored (hplain : e.hasFormula c.2 = false) (hnone : s.settled.get? c = none) :
    e.look mode s c = e.store.fieldValue c.1 c.2 := by
  simp [look, hnone, hplain]

theorem look_of_hasFormula (hform : e.hasFormula c.2 = true) :
    e.look mode s c = (s.known? mode c).getD .null := by
  rw [look]
  cases hsettled : s.settled.get? c with
  | some v => rw [known?_of_settled hsettled, Option.getD_some]
  | none => exact if_pos hform

theorem Knows.look_eq (h : Knows e den mode trusted s) (hc : trusted c)
    (hknown : e.hasFormula c.2 = true → (s.known? mode c).isSome = true) :
    e.look mode s c = den c := by
  cases hform : e.hasFormula c.2 with
  | false =>
    cases hsettled : s.settled.get? c with
    | some v =>
      rw [look, hsettled]
      exact h.settled c hc v hsettled
    | none =>
      rw [look_of_stored hform hsettled]
      exact h.stored c hform hsettled
  | true =>
    obtain ⟨v, hv⟩ := Option.isSome_iff_exists.mp (hknown hform)
    rw [look_of_hasFormula hform, hv]
    exact h.known c hc hform v hv

/-- What the formula of a cell gives where the cells that it reads are looked at. -/
theorem valueUnder_look {formula : Formula} (hformula : e.formula? cell.2 = some formula) :
    e.valueUnder (e.look mode s) cell =
      formula.root.eval (e.lookView mode s cell.1) e.options.now := by
  rw [valueUnder, hformula]
  rfl

/-- A formula whose inputs are known has the value that it has over the meanings. -/
theorem Knows.eval_lookView (hs : e.Sound) (hclosed : e.Closed trusted)
    (h : Knows e den mode trusted s) (hcell : trusted cell) {formula : Formula}
    (hformula : e.formula? cell.2 = some formula)
    (hinputs : ∀ c, e.Reads cell c → e.hasFormula c.2 = true →
      (s.known? mode c).isSome = true) :
    formula.root.eval (e.lookView mode s cell.1) e.options.now = e.valueUnder den cell := by
  rw [← valueUnder_look hformula]
  exact hs.valueUnder_congr_self fun c hc => h.look_eq (hclosed cell c hcell hc) (hinputs c hc)

/-! ## Resolving -/

/-- The inputs of a formula cell are the formula cells that it reads. -/
theorem Sound.mem_inputs (hs : e.Sound) :
    c ∈ e.inputs cell ↔ e.Reads cell c ∧ e.hasFormula c.2 = true := by
  obtain ⟨r, f⟩ := c
  rw [hs.reads_iff, inputs, List.mem_flatMap]
  constructor
  · rintro ⟨⟨g, kind⟩, hedge, hmem⟩
    rw [DependencyGraph.mem_precedents] at hedge
    simp only at hmem
    split at hmem
    · rename_i hform
      cases kind with
      | direct =>
        obtain ⟨rfl, rfl⟩ := Prod.mk.inj (List.mem_singleton.mp hmem)
        exact ⟨⟨.direct, hedge, rfl⟩, hform⟩
      | via link =>
        obtain ⟨target, htarget, heq⟩ := List.mem_map.mp hmem
        obtain ⟨rfl, rfl⟩ := Prod.mk.inj heq
        exact ⟨⟨.via link, hedge, htarget⟩, hform⟩
    · simp at hmem
  · rintro ⟨⟨kind, hedge, hlead⟩, hform⟩
    refine ⟨(f, kind), DependencyGraph.mem_precedents.mpr hedge, ?_⟩
    simp only at hform ⊢
    rw [if_pos hform]
    cases kind with
    | direct =>
      obtain rfl : r = cell.1 := hlead
      exact List.mem_singleton.mpr rfl
    | via link => exact List.mem_map.mpr ⟨r, hlead, rfl⟩

/-- Goes through cells with a step `f` for each that is not done yet. If the step makes its cell
done and never undoes another, all are done in the end. -/
theorem foldl_done {R : Session → Session → Prop} {P : Session → Prop}
    {d : Session → Cell → Bool} {f : Session → Cell → Session} (cells : List Cell)
    (hrefl : ∀ s, R s s) (htrans : ∀ s s' s'', R s s' → R s' s'' → R s s'')
    (hkeep : ∀ s s', R s s' → (P s → P s') ∧ ∀ c, d s c = true → d s' c = true)
    (hstep : ∀ s, P s → ∀ c ∈ cells, d s c = false → R s (f s c) ∧ d (f s c) c = true) (h : P s) :
    let ready := cells.foldl (fun s c => if d s c then s else f s c) s
    R s ready ∧ ∀ c ∈ cells, d ready c = true := by
  induction cells generalizing s with
  | nil => exact ⟨hrefl s, by simp⟩
  | cons x xs ih =>
    have hfirst : ∃ s₁, (if d s x then s else f s x) = s₁ ∧ R s s₁ ∧ d s₁ x = true := by
      cases hx : d s x with
      | true => exact ⟨s, if_pos rfl, hrefl s, hx⟩
      | false => exact ⟨f s x, if_neg (by simp), hstep s h x (by simp) hx⟩
    obtain ⟨s₁, hs₁, hfirst, hx⟩ := hfirst
    obtain ⟨hrest, hdone⟩ := ih (fun s hs c hc => hstep s hs c (List.mem_cons_of_mem _ hc))
      ((hkeep s s₁ hfirst).1 h)
    simp only [List.foldl_cons, hs₁]
    refine ⟨htrans s s₁ _ hfirst hrest, List.forall_mem_cons.mpr ⟨?_, hdone⟩⟩
    exact (hkeep s₁ _ hrest).2 x hx

/-- What a step that gives cells their values does to a list of inputs: all of them are known. -/
theorem foldl_known {step : Session → Cell → Session} (inputs : List Cell)
    (hstep : ∀ s, Grounded e den mode trusted s → ∀ c ∈ inputs, s.known? mode c = none →
      Grows e den mode allowed s (step s c) ∧ (step s c).settled.get? c = some (den c))
    (h : Grounded e den mode trusted s) :
    let ready := inputs.foldl
      (fun s c => if (s.known? mode c).isSome then s else step s c) s
    Grows e den mode allowed s ready ∧ ∀ c ∈ inputs, (ready.known? mode c).isSome = true := by
  refine foldl_done inputs Grows.refl (fun s s' s'' h h' => h.trans h')
    (fun s s' hg => ⟨fun hs => hs.grows hg, fun c => hg.isSome_known?⟩)
    (fun s hs c hc hnone => ?_) h
  obtain ⟨hg, hsettled⟩ := hstep s hs c hc (by simpa using hnone)
  exact ⟨hg, by rw [known?_of_settled hsettled]; rfl⟩

/-- Resolving a trusted formula cell settles its meaning. -/
theorem Grounded.resolve (hs : e.Sound) (hclosed : e.Closed trusted)
    (limit : Nat) (h : Grounded e den mode trusted s) (hcell : trusted cell)
    (hform : e.hasFormula cell.2 = true) (hnew : s.known? mode cell = none)
    (hheight : e.graph.height cell.2 < limit) :
    Grows e den mode (fun _ => False) s (e.resolve mode limit s cell) ∧
      (e.resolve mode limit s cell).settled.get? cell = some (den cell) := by
  induction limit generalizing s cell with
  | zero => exact absurd hheight (Nat.not_lt_zero _)
  | succ limit ih =>
    obtain ⟨φ, hφ⟩ := formula?_of_hasFormula hform
    -- the inputs are lower than the cell, so one step fewer is enough for them
    obtain ⟨hg, hknown⟩ := foldl_known (e.inputs cell).reverse (fun s hs' c hc hnone => by
        obtain ⟨hread, hc'⟩ := hs.mem_inputs.mp (List.mem_reverse.mp hc)
        have := hs.height_lt hread hc'
        exact ih hs' (hclosed cell c hcell hread) hc' hnone (by omega)) h
    have hvalue := (h.grows hg).eval_lookView hs hclosed hcell hφ fun c hread hc =>
      hknown c (List.mem_reverse.mpr (hs.mem_inputs.mpr ⟨hread, hc⟩))
    rw [Engine.resolve, hφ]
    simp only
    rw [hvalue, ← h.missing cell hcell hform hnew]
    exact ⟨hg.record hform (.inr hnew), record_get?_settled.trans (if_pos rfl)⟩

/-! ## Reading -/

/-- The value that is settled or known, or what resolving the cell gives it. -/
theorem valueOf_eq (e : Engine) (mode : ReadMode) (cell : Cell) (s : Session) :
    e.valueOf mode cell s = match s.settled.get? cell with
      | some v => (v, s)
      | none =>
        if e.hasFormula cell.2 then
          match s.known? mode cell with
          | some v => (v, s)
          | none =>
            let resolved := e.resolve mode e.formulas.size s cell
            ((resolved.settled.get? cell).getD .null, resolved)
        else (e.store.fieldValue cell.1 cell.2, s) := rfl

theorem valueOf_of_stored (hplain : e.hasFormula cell.2 = false)
    (hnone : s.settled.get? cell = none) :
    e.valueOf mode cell s = (e.store.fieldValue cell.1 cell.2, s) := by
  simp [valueOf_eq, hnone, hplain]

/-- A formula cell of which nothing is known is resolved, for chains of reads of any length. -/
theorem valueOf_of_hasFormula (hform : e.hasFormula cell.2 = true) :
    e.valueOf mode cell s = match s.known? mode cell with
      | some v => (v, s)
      | none =>
        let resolved := e.resolve mode e.formulas.size s cell
        ((resolved.settled.get? cell).getD .null, resolved) := by
  rw [valueOf_eq]
  cases hsettled : s.settled.get? cell with
  | some v => rw [known?_of_settled hsettled]
  | none => exact if_pos hform

/-- A session step gives a value, and leaves all that it knows right. -/
def Gives (e : Engine) (den : Cell → Value) (mode : ReadMode) (trusted : Cell → Prop) (α : Type)
    (x : StateM Session α) (y : Id α) : Prop :=
  ∀ s, Grounded e den mode trusted s → (x s).1 = y ∧ Grows e den mode (fun _ => False) s (x s).2

theorem sequential_gives : Sequential (Gives e den mode trusted) where
  pure := fun a s _ => ⟨rfl, Grows.refl s⟩
  bind := by
    intro α β x y f g hxy hfg s hs
    obtain ⟨hvalue, hg⟩ := hxy s hs
    obtain ⟨hvalue', hg'⟩ := hfg (x s).1 (x s).2 (hs.grows hg)
    refine ⟨?_, hg.trans hg'⟩
    show (f (x s).1 (x s).2).1 = g y
    rw [hvalue', hvalue]

/-- Reading a trusted cell gives its meaning. -/
theorem Sound.valueOf_gives (hs : e.Sound) (hclosed : e.Closed trusted) (hcell : trusted cell) :
    Gives e den mode trusted Value (e.valueOf mode cell) (den cell) := by
  intro s h
  cases hform : e.hasFormula cell.2 with
  | false =>
    cases hsettled : s.settled.get? cell with
    | some v =>
      rw [valueOf_eq, hsettled]
      exact ⟨h.settled cell hcell v hsettled, Grows.refl s⟩
    | none =>
      rw [valueOf_of_stored hform hsettled]
      exact ⟨h.stored cell hform hsettled, Grows.refl s⟩
  | true =>
    rw [valueOf_of_hasFormula hform]
    cases hknown : s.known? mode cell with
    | some v => exact ⟨h.known cell hcell hform v hknown, Grows.refl s⟩
    | none =>
      obtain ⟨hg, hvalue⟩ := h.resolve hs hclosed e.formulas.size hcell hform hknown
        (hs.height_lt_size hform)
      refine ⟨?_, hg⟩
      simp only
      rw [hvalue]
      rfl

/-- Two ways to read a record are related on a reference if they are on all cells that it reaches. A
lookup reads the cells of all linked records, one after the other. -/
theorem agreeOn_cells {R : (α : Type) → StateM Session α → Id α → Prop} (hR : Sequential R)
    {F : Cell → StateM Session Value} {G : Cell → Value} {record : RecordId} {reference : Reference}
    (h : ∀ c, reference.Reaches e.store record c → R Value (F c) (G c)) :
    View.AgreeOn R
      ⟨fun f => F (record, f), fun link f =>
        (e.store.linkedRecords record link).mapM fun target => F (target, f)⟩
      (e.viewUnder G record) reference := by
  cases reference with
  | field f => exact h (record, f) rfl
  | linked link f =>
    have hmap := hR.mapM (f := fun target => F (target, f))
      (g := fun target => (G (target, f) : Id _)) fun target htarget =>
        h (target, f) (.inr ⟨rfl, htarget⟩)
    have hid : (e.store.linkedRecords record link).mapM (m := Id) (fun target => G (target, f)) =
        (e.viewUnder G record).linkedValues link f := List.idRun_mapM
    rw [hid] at hmap
    exact hmap

/-- Evaluating a formula that refers to trusted cells gives its value over their meanings. -/
theorem Sound.compute_gives (hs : e.Sound) (hclosed : e.Closed trusted)
    {record : RecordId} {root : Expr} (hroot : ∀ reference ∈ root.references,
      ∀ c, reference.Reaches e.store record c → trusted c) :
    Gives e den mode trusted Value (e.compute mode record root)
      (root.eval (e.viewUnder den record) e.options.now) := by
  refine root.evalM_related sequential_gives (fun reference hmem => ?_) fun _ => rfl
  exact agreeOn_cells sequential_gives fun c hc =>
    hs.valueOf_gives hclosed (hroot reference hmem c hc)

/-! ## What a session leaves alone -/

/-- Computing cells of a set looks at cells of this set only. -/
structure Contained (e : Engine) (P : Cell → Prop) : Prop where
  inputs : ∀ a, P a → ∀ b ∈ e.inputs a, P b
  roots : ∀ a, P a → ∀ φ, e.formula? a.2 = some φ → ∀ reference ∈ φ.root.references,
    ∀ b, reference.Reaches e.store a.1 b → P b

theorem contained_all (e : Engine) : e.Contained fun _ => True :=
  ⟨fun _ _ _ _ => trivial, fun _ _ _ _ _ _ _ _ => trivial⟩

theorem Sound.contained (hs : e.Sound) {P : Cell → Prop} (hclosed : e.Closed P) :
    e.Contained P where
  inputs := fun a ha b hb => hclosed a b ha (hs.mem_inputs.mp hb).1
  roots := fun a ha φ hφ reference hmem b hb =>
    hclosed a b ha ⟨φ, hφ, reference, by rwa [φ.references_eq], hb⟩

/-- Recording formula cells of a set keeps a property. -/
def KeptWithin (e : Engine) (P : Cell → Prop) (Q : Session → Prop) : Prop :=
  ∀ s a v, P a → e.hasFormula a.2 = true → Q s → Q (s.record a v)

theorem sequential_keeps (Q : Session → Prop) :
    Sequential (n := Id) fun α (x : StateM Session α) _ => ∀ s, Q s → Q (x s).2 where
  pure := fun _ _ h => h
  bind := fun hx hf s h => hf _ _ (hx s h)

section

variable {P : Cell → Prop} {Q : Session → Prop}

/-- Resolving a cell of a contained set only records formula cells of it. -/
theorem resolve_keeps (hP : e.Contained P) (hQ : e.KeptWithin P Q) (limit : Nat) (hcell : P cell)
    (h : Q s) : Q (e.resolve mode limit s cell) := by
  induction limit generalizing s cell with
  | zero => exact h
  | succ limit ih =>
    rw [resolve]
    cases hφ : e.formula? cell.2 with
    | none => exact h
    | some φ =>
      refine hQ _ _ _ hcell (hasFormula_of_formula? hφ) ?_
      refine List.foldlRecOn (motive := Q) _ _ h fun t ht input hinput => ?_
      split
      · exact ht
      · exact ih (hP.inputs cell hcell input (List.mem_reverse.mp hinput)) ht

theorem valueOf_keeps (hP : e.Contained P) (hQ : e.KeptWithin P Q) (hcell : P cell) (h : Q s) :
    Q (e.valueOf mode cell s).2 := by
  rw [valueOf_eq]
  split
  · exact h
  · split
    · split
      · exact h
      · exact resolve_keeps hP hQ _ hcell h
    · exact h

/-- So does evaluating a formula that refers to such cells. -/
theorem compute_keeps (hP : e.Contained P) (hQ : e.KeptWithin P Q) {record : RecordId} {root : Expr}
    (hroot : ∀ reference ∈ root.references, ∀ c, reference.Reaches e.store record c → P c)
    (h : Q s) : Q (e.compute mode record root s).2 := by
  -- what the evaluation gives does not matter, so the view beside it may be any
  have hview : ∀ reference ∈ root.references,
      View.AgreeOn (fun _ (x : StateM Session _) _ => ∀ s, Q s → Q (x s).2) (e.view mode record)
        View.blank reference := by
    intro reference hmem
    cases reference with
    | field f => exact fun s => valueOf_keeps hP hQ (hroot _ hmem (record, f) rfl)
    | linked link f =>
      exact (sequential_keeps Q).mapM (g := fun _ => (.null : Id Value)) fun target htarget s =>
        valueOf_keeps hP hQ (hroot _ hmem (target, f) (.inr ⟨rfl, htarget⟩))
  exact root.evalM_related (sequential_keeps Q) hview (fun _ => rfl) s h

/-- And computing cells one after the other. -/
theorem run_keeps (hP : e.Contained P) (hQ : e.KeptWithin P Q) {cells : List Cell}
    (hcells : ∀ a ∈ cells, P a) (h : Q s) : Q (e.run cells s).2 := by
  induction cells generalizing s with
  | nil => exact h
  | cons cell cells ih =>
    obtain ⟨hcell, hcells⟩ := List.forall_mem_cons.mp hcells
    rw [run]
    cases hφ : e.formula? cell.2 with
    | none => exact ih hcells h
    | some φ =>
      have hcompute : Q (e.compute .cached cell.1 φ.root s).2 :=
        compute_keeps hP hQ (hP.roots cell hcell φ hφ) h
      exact ih hcells (hQ _ _ _ hcell (hasFormula_of_formula? hφ) hcompute)

/-- Recording formula cells of a set leaves all others alone. -/
theorem keeps_untouched (hc : e.hasFormula c.2 = true → ¬ P c) (s : Session) :
    e.KeptWithin P fun t => Untouched s t c := by
  intro t a v ha hform h
  refine h.trans (.record ?_)
  rintro rfl
  exact hc hform ha

theorem keeps_plain (hc : e.hasFormula c.2 = false) (s : Session) :
    e.KeptWithin (fun _ => True) fun t => Untouched s t c :=
  keeps_untouched (fun hform => by rw [hc] at hform; cases hform) s

theorem keeps_known? (c : Cell) : e.KeptWithin P fun t => (t.known? mode c).isSome = true := by
  intro t a v _ _ h
  rw [record_known?]
  split
  · rfl
  · exact h

end

end Engine

end ComputedFields
