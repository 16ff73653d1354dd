import ComputedFields.Proofs.Engine.Session

/-!
# Sessions side by side

Two sessions that can both get some trusted cells right, whether they know these cells already or
not, and that know the same of the other cells of a region. Whatever both of them compute in the
region comes out the same, and they stay side by side. So do the sessions after them, which start
from what they left in the cache.
-/

namespace ComputedFields

namespace Engine

variable {e : Engine} {den : Cell → Value} {trusted region : Cell → Prop} {s s' t : Session}
  {c cell : Cell}

/-! ## Side by side -/

/-- Recording a formula cell keeps a session right, if a trusted one gets its meaning. -/
theorem Grounded.record (h : Grounded e den .cached trusted s) (hform : e.hasFormula cell.2 = true)
    {v : Value} (hv : trusted cell → v = den cell) :
    Grounded e den .cached trusted (s.record cell v) where
  settled := by
    intro c hc w hw
    rw [record_get?_settled] at hw
    split at hw
    · rename_i heq
      subst heq
      exact (Option.some.inj hw).symm.trans (hv hc)
    · exact h.settled c hc w hw
  known := by
    intro c hc hform' w hw
    rw [record_known?] at hw
    split at hw
    · rename_i heq
      subst heq
      exact (Option.some.inj hw).symm.trans (hv hc)
    · exact h.known c hc hform' w hw
  stored := by
    intro c hplain hnone
    rw [record_get?_settled] at hnone
    split at hnone
    · cases hnone
    · exact h.stored c hplain hnone
  missing := by
    intro c hc hform' hnone
    rw [record_known?] at hnone
    split at hnone
    · cases hnone
    · exact h.missing c hc hform' hnone

/-- Two sessions that can get every trusted cell right, and know the same of all other formula cells
of a region. No stored value is settled in them. -/
structure SideBySide (e : Engine) (den : Cell → Value) (trusted region : Cell → Prop)
    (s s' : Session) : Prop where
  left : Grounded e den .cached trusted s
  right : Grounded e den .cached trusted s'
  same : ∀ c, region c → ¬ trusted c → e.hasFormula c.2 = true →
    s'.known? .cached c = s.known? .cached c
  plain : ∀ c, e.hasFormula c.2 = false → s.settled.get? c = none ∧ s'.settled.get? c = none

theorem SideBySide.symm (h : SideBySide e den trusted region s s') :
    SideBySide e den trusted region s' s :=
  ⟨h.right, h.left, fun c hc hoff hform => (h.same c hc hoff hform).symm,
    fun c hplain => (h.plain c hplain).symm⟩

/-- Both sessions record the same value. -/
theorem SideBySide.record (h : SideBySide e den trusted region s s')
    (hform : e.hasFormula cell.2 = true) {v : Value} (hv : trusted cell → v = den cell) :
    SideBySide e den trusted region (s.record cell v) (s'.record cell v) where
  left := h.left.record hform hv
  right := h.right.record hform hv
  same := by
    intro c hc hoff hform'
    rw [record_known?, record_known?, h.same c hc hoff hform']
  plain := by
    intro c hplain
    have hne : c ≠ cell := by
      rintro rfl
      rw [hform] at hplain
      cases hplain
    rw [record_get?_settled, record_get?_settled, if_neg hne, if_neg hne]
    exact h.plain c hplain

/-- One of the sessions moves on, and gets right what it touches. -/
theorem SideBySide.advance (h : SideBySide e den trusted region s s')
    (ht : Grounded e den .cached trusted t)
    (hrest : ∀ c, (e.hasFormula c.2 = true → region c ∧ ¬ trusted c) → Untouched s t c) :
    SideBySide e den trusted region t s' where
  left := ht
  right := h.right
  same := by
    intro c hc hoff hform
    rw [(hrest c fun _ => ⟨hc, hoff⟩).known?_eq]
    exact h.same c hc hoff hform
  plain := by
    intro c hplain
    rw [(hrest c fun hform => by rw [hplain] at hform; cases hform).1]
    exact h.plain c hplain

/-- Both sessions see the same of a cell of the region, once its value is known. -/
theorem SideBySide.look_eq (h : SideBySide e den trusted region s s') (hc : region c)
    (hknown : e.hasFormula c.2 = true →
      (s.known? .cached c).isSome = true ∧ (s'.known? .cached c).isSome = true) :
    e.look .cached s' c = e.look .cached s c := by
  cases hform : e.hasFormula c.2 with
  | false =>
    obtain ⟨hnone, hnone'⟩ := h.plain c hform
    rw [look_of_stored hform hnone, look_of_stored hform hnone']
  | true =>
    obtain ⟨hleft, hright⟩ := hknown hform
    by_cases htrusted : trusted c
    · rw [h.left.look_eq htrusted fun _ => hleft, h.right.look_eq htrusted fun _ => hright]
    · rw [look_of_hasFormula hform, look_of_hasFormula hform, h.same c hc htrusted hform]

/-! ## Both sessions compute the same -/

/-- What resolving a cell does for an input: nothing, if its value is known. -/
def supply (e : Engine) (limit : Nat) (s : Session) (c : Cell) : Session :=
  if (s.known? .cached c).isSome then s else e.resolve .cached limit s c

theorem supply_of_known {v : Value} (h : s.known? .cached c = some v) (limit : Nat) :
    e.supply limit s c = s := by
  simp [supply, h]

theorem supply_of_missing (h : s.known? .cached c = none) (limit : Nat) :
    e.supply limit s c = e.resolve .cached limit s c := by
  simp [supply, h]

theorem resolve_succ {φ : Formula} (hφ : e.formula? cell.2 = some φ) (limit : Nat) (s : Session) :
    let ready := (e.inputs cell).reverse.foldl (e.supply limit) s
    e.resolve .cached (limit + 1) s cell =
      ready.record cell (e.valueUnder (e.look .cached ready) cell) := by
  intro ready
  rw [valueUnder_look hφ, resolve, hφ]
  rfl

/-- One of the sessions sees to a trusted input. -/
theorem SideBySide.supply_trusted (hs : e.Sound) (hclosed : e.Closed trusted) {limit : Nat}
    (h : SideBySide e den trusted region s s') (hc : trusted c) (hform : e.hasFormula c.2 = true)
    (hheight : e.graph.height c.2 < limit) :
    SideBySide e den trusted region (e.supply limit s c) s' ∧
      ((e.supply limit s c).known? .cached c).isSome = true := by
  cases hknown : s.known? .cached c with
  | some v =>
    rw [supply_of_known hknown, hknown]
    exact ⟨h, rfl⟩
  | none =>
    obtain ⟨hg, hsettled⟩ := h.left.resolve hs hclosed limit hc hform hknown hheight
    rw [supply_of_missing hknown, known?_of_settled hsettled]
    refine ⟨h.advance (h.left.grows hg) fun a ha => ?_, rfl⟩
    exact resolve_keeps (hs.contained hclosed) (keeps_untouched (fun hform => (ha hform).2) s)
      limit hc (Untouched.refl s a)

/-- Both sessions see to an input, if they resolve those that are not trusted to the same value. -/
theorem SideBySide.supply (hs : e.Sound) (hclosed : e.Closed trusted) {limit : Nat}
    (h : SideBySide e den trusted region s s') (hc : region c) (hform : e.hasFormula c.2 = true)
    (hheight : e.graph.height c.2 < limit)
    (hresolve : ¬ trusted c →
      SideBySide e den trusted region (e.resolve .cached limit s c) (e.resolve .cached limit s' c) ∧
        ∃ v, (e.resolve .cached limit s c).settled.get? c = some v ∧
          (e.resolve .cached limit s' c).settled.get? c = some v) :
    SideBySide e den trusted region (e.supply limit s c) (e.supply limit s' c) ∧
      ((e.supply limit s c).known? .cached c).isSome = true ∧
      ((e.supply limit s' c).known? .cached c).isSome = true := by
  by_cases hin : trusted c
  · -- a trusted cell may be known on one side only
    obtain ⟨hleft, hknown⟩ := h.supply_trusted hs hclosed hin hform hheight
    obtain ⟨hright, hknown'⟩ := hleft.symm.supply_trusted hs hclosed hin hform hheight
    exact ⟨hright.symm, hknown, hknown'⟩
  · have hsame := h.same c hc hin hform
    cases hknown : s.known? .cached c with
    | some v =>
      rw [hknown] at hsame
      rw [supply_of_known hknown, supply_of_known hsame, hknown, hsame]
      exact ⟨h, rfl, rfl⟩
    | none =>
      rw [hknown] at hsame
      obtain ⟨hboth, v, hv, hv'⟩ := hresolve hin
      rw [supply_of_missing hknown, supply_of_missing hsame, known?_of_settled hv,
        known?_of_settled hv']
      exact ⟨hboth, rfl, rfl⟩

/-- What is known stays known. -/
theorem isSome_known?_supply (limit : Nat) (a : Cell) (h : (s.known? .cached c).isSome = true) :
    ((e.supply limit s a).known? .cached c).isSome = true := by
  rw [supply]
  split
  · exact h
  · exact resolve_keeps (contained_all e) (keeps_known? c) limit trivial h

/-- Both sessions go through the same inputs. -/
theorem foldl_done_both {R : Session → Session → Prop} {d : Session → Cell → Prop}
    {f : Session → Cell → Session} (inputs : List Cell)
    (hkeep : ∀ s c x, d s x → d (f s c) x)
    (hstep : ∀ s s', R s s' → ∀ c ∈ inputs, R (f s c) (f s' c) ∧ d (f s c) c ∧ d (f s' c) c)
    (h : R s s') :
    R (inputs.foldl f s) (inputs.foldl f s') ∧
      ∀ c ∈ inputs, d (inputs.foldl f s) c ∧ d (inputs.foldl f s') c := by
  induction inputs generalizing s s' with
  | nil => exact ⟨h, by simp⟩
  | cons x xs ih =>
    obtain ⟨hfirst, hx, hx'⟩ := hstep s s' h x (by simp)
    have hrest : ∀ s, d s x → d (xs.foldl f s) x := fun s hs =>
      List.foldlRecOn (motive := fun t => d t x) xs f hs fun t ht c _ => hkeep t c x ht
    obtain ⟨hR, hdone⟩ :=
      ih (fun s s' hR c hc => hstep s s' hR c (List.mem_cons_of_mem _ hc)) hfirst
    exact ⟨hR, List.forall_mem_cons.mpr ⟨⟨hrest _ hx, hrest _ hx'⟩, hdone⟩⟩

/-- Both sessions resolve a cell of the region to the same value. -/
theorem SideBySide.resolve (hs : e.Sound) (htrusted : e.Closed trusted) (hregion : e.Closed region)
    (limit : Nat) (h : SideBySide e den trusted region s s') (hcell : region cell)
    (hoff : ¬ trusted cell) (hform : e.hasFormula cell.2 = true)
    (hheight : e.graph.height cell.2 < limit) :
    SideBySide e den trusted region (e.resolve .cached limit s cell)
        (e.resolve .cached limit s' cell) ∧
      ∃ v, (e.resolve .cached limit s cell).settled.get? cell = some v ∧
        (e.resolve .cached limit s' cell).settled.get? cell = some v := by
  induction limit generalizing s s' cell with
  | zero => exact absurd hheight (Nat.not_lt_zero _)
  | succ limit ih =>
    obtain ⟨φ, hφ⟩ := formula?_of_hasFormula hform
    have hstep : ∀ s s', SideBySide e den trusted region s s' → ∀ c ∈ (e.inputs cell).reverse,
        SideBySide e den trusted region (e.supply limit s c) (e.supply limit s' c) ∧
          ((e.supply limit s c).known? .cached c).isSome = true ∧
          ((e.supply limit s' c).known? .cached c).isSome = true := by
      intro s s' h c hc
      obtain ⟨hread, hc⟩ := hs.mem_inputs.mp (List.mem_reverse.mp hc)
      -- inputs are lower than the cell, so one step fewer is enough for them
      have hlower := hs.height_lt hread hc
      have hin := hregion cell c hcell hread
      exact h.supply hs htrusted hin hc (by omega) fun hoff => ih h hin hoff hc (by omega)
    have hkeep : ∀ (s : Session) (a c : Cell), (s.known? .cached c).isSome = true →
        ((e.supply limit s a).known? .cached c).isSome = true :=
      fun _ a _ => isSome_known?_supply limit a
    obtain ⟨hready, hknown⟩ := foldl_done_both (e.inputs cell).reverse hkeep hstep h
    have hlook : ∀ c, e.Reads cell c → e.look .cached _ c = e.look .cached _ c :=
      fun c hread => hready.look_eq (hregion cell c hcell hread) fun hc =>
        hknown c (List.mem_reverse.mpr (hs.mem_inputs.mpr ⟨hread, hc⟩))
    rw [resolve_succ hφ, resolve_succ hφ, hs.valueUnder_congr_self hlook]
    exact ⟨hready.record hform fun hin => absurd hin hoff, _,
      record_get?_settled.trans (if_pos rfl), record_get?_settled.trans (if_pos rfl)⟩

/-- A step of two sessions gives the same in both, and keeps them side by side. -/
def Agrees (e : Engine) (den : Cell → Value) (trusted region : Cell → Prop) (α : Type)
    (x y : StateM Session α) : Prop :=
  ∀ s s', SideBySide e den trusted region s s' →
    (y s').1 = (x s).1 ∧ SideBySide e den trusted region (x s).2 (y s').2

theorem sequential_agrees : Sequential (Agrees e den trusted region) where
  pure := fun _ _ _ h => ⟨rfl, h⟩
  bind := by
    intro α β x y f g hxy hfg s s' h
    obtain ⟨hvalue, h⟩ := hxy s s' h
    show (g (y s').1 (y s').2).1 = (f (x s).1 (x s).2).1 ∧
      SideBySide e den trusted region (f (x s).1 (x s).2).2 (g (y s').1 (y s').2).2
    rw [hvalue]
    exact hfg (x s).1 _ _ h

/-- A read of a trusted cell moves one of the sessions on. -/
theorem SideBySide.valueOf_trusted (hs : e.Sound) (hclosed : e.Closed trusted)
    (h : SideBySide e den trusted region s s') (hcell : trusted cell) :
    (e.valueOf .cached cell s).1 = den cell ∧
      SideBySide e den trusted region (e.valueOf .cached cell s).2 s' := by
  obtain ⟨hvalue, hg⟩ := hs.valueOf_gives hclosed hcell s h.left
  refine ⟨hvalue, h.advance (h.left.grows hg) fun c hc => ?_⟩
  exact valueOf_keeps (hs.contained hclosed) (keeps_untouched (fun hform => (hc hform).2) s)
    hcell (Untouched.refl s c)

theorem Sound.valueOf_agrees (hs : e.Sound) (htrusted : e.Closed trusted)
    (hregion : e.Closed region) (hcell : region cell) :
    Agrees e den trusted region Value (e.valueOf .cached cell) (e.valueOf .cached cell) := by
  intro s s' h
  cases hform : e.hasFormula cell.2 with
  | false =>
    obtain ⟨hnone, hnone'⟩ := h.plain cell hform
    rw [valueOf_of_stored hform hnone, valueOf_of_stored hform hnone']
    exact ⟨rfl, h⟩
  | true =>
    by_cases hin : trusted cell
    · obtain ⟨hvalue, h⟩ := h.valueOf_trusted hs htrusted hin
      obtain ⟨hvalue', h⟩ := h.symm.valueOf_trusted hs htrusted hin
      exact ⟨hvalue'.trans hvalue.symm, h.symm⟩
    · rw [valueOf_of_hasFormula hform, valueOf_of_hasFormula hform, h.same cell hcell hin hform]
      cases hknown : s.known? .cached cell with
      | some v => exact ⟨rfl, h⟩
      | none =>
        obtain ⟨h, v, hv, hv'⟩ := h.resolve hs htrusted hregion e.formulas.size hcell hin hform
          (hs.height_lt_size hform)
        exact ⟨by simp only [hv, hv'], h⟩

theorem Sound.compute_agrees (hs : e.Sound) (htrusted : e.Closed trusted)
    (hregion : e.Closed region) {record : RecordId} {root : Expr}
    (hroot : ∀ reference ∈ root.references,
      ∀ c, reference.Reaches e.store record c → region c) :
    Agrees e den trusted region Value (e.compute .cached record root)
      (e.compute .cached record root) := by
  refine root.evalM_related sequential_agrees (fun reference hmem => ?_) fun _ => rfl
  have hreach := hroot reference hmem
  cases reference with
  | field f => exact hs.valueOf_agrees htrusted hregion (hreach (record, f) rfl)
  | linked link f =>
    exact sequential_agrees.mapM fun target htarget =>
      hs.valueOf_agrees htrusted hregion (hreach (target, f) (.inr ⟨rfl, htarget⟩))

/-- Computing the first of several cells. -/
theorem run_cons {φ : Formula} (hφ : e.formula? cell.2 = some φ) (cells : List Cell)
    (s : Session) :
    let computed := e.compute .cached cell.1 φ.root s
    let next := e.run cells (computed.2.record cell computed.1)
    e.run (cell :: cells) s = (⟨cell.1, cell.2, computed.1⟩ :: next.1, next.2) := by
  rw [run, hφ]
  rfl

/-- Both sessions compute the same cells of the region, with the same values. The trusted ones of
these cells are worth what their formulas give. -/
theorem SideBySide.run (hs : e.Sound) (htrusted : e.Closed trusted) (hregion : e.Closed region)
    {cells : List Cell} (hcells : ∀ a ∈ cells, region a)
    (hfix : ∀ a ∈ cells, trusted a → den a = e.valueUnder den a)
    (h : SideBySide e den trusted region s s') :
    (e.run cells s').1 = (e.run cells s).1 ∧
      SideBySide e den trusted region (e.run cells s).2 (e.run cells s').2 := by
  induction cells generalizing s s' with
  | nil => exact ⟨rfl, h⟩
  | cons cell cells ih =>
    obtain ⟨hcell, hcells⟩ := List.forall_mem_cons.mp hcells
    obtain ⟨hfirst, hfix⟩ := List.forall_mem_cons.mp hfix
    cases hφ : e.formula? cell.2 with
    | none =>
      rw [Engine.run, hφ]
      exact ih hcells hfix h
    | some φ =>
      have hroots : ∀ {P : Cell → Prop}, e.Closed P → P cell → ∀ reference ∈ φ.root.references,
          ∀ c, reference.Reaches e.store cell.1 c → P c := fun hP hcell =>
        (hs.contained hP).roots cell hcell φ hφ
      have hagrees : Agrees e den trusted region Value (e.compute .cached cell.1 φ.root) _ :=
        hs.compute_agrees htrusted hregion (hroots hregion hcell)
      obtain ⟨hvalue, hnext⟩ := hagrees s s' h
      have hmeaning : trusted cell → (e.compute .cached cell.1 φ.root s).1 = den cell := by
        intro hin
        have hgives : Gives e den .cached trusted Value (e.compute .cached cell.1 φ.root) _ :=
          hs.compute_gives htrusted (hroots htrusted hin)
        rw [(hgives s h.left).1, hfirst hin, valueUnder, hφ]
      obtain ⟨hbatch, hlast⟩ :=
        ih hcells hfix (hnext.record (hasFormula_of_formula? hφ) hmeaning)
      rw [run_cons hφ, run_cons hφ, hvalue, hbatch]
      exact ⟨rfl, hlast⟩

/-! ## From one session to the next -/

/-- All that is settled is cached too. -/
def Saved (s : Session) : Prop :=
  ∀ c v, s.settled.get? c = some v → (s.cache.get? c.1 c.2).map (·.value) = some v

theorem keeps_saved : e.KeptWithin (fun _ => True) Saved := by
  intro s a v _ _ h c w hw
  rw [record_get?_settled] at hw
  rw [record_get?_cache]
  split at hw
  · rename_i heq
    rw [if_pos heq]
    exact hw
  · rename_i hne
    rw [if_neg hne]
    exact h c w hw

/-- What a session starts from that comes after another one. -/
def restart (s : Session) : Session := ⟨.empty, s.cache⟩

/-- A session knows what the one before it knew. -/
theorem Saved.known?_restart (h : Saved s) (c : Cell) :
    (restart s).known? .cached c = s.known? .cached c := by
  cases hsettled : s.settled.get? c with
  | some v =>
    rw [known?_of_settled hsettled]
    exact h c v hsettled
  | none => simp [Session.known?, restart, hsettled]

theorem Grounded.restart (h : Grounded e den .cached trusted s) (hsaved : Saved s)
    (hplain : ∀ c, e.hasFormula c.2 = false → s.settled.get? c = none) :
    Grounded e den .cached trusted (restart s) where
  settled := by
    intro c _ v hv
    cases hv
  known := fun c hc hform v hv => h.known c hc hform v ((hsaved.known?_restart c).symm.trans hv)
  stored := fun c hc _ => h.stored c hc (hplain c hc)
  missing := fun c hc hform hnone =>
    h.missing c hc hform ((hsaved.known?_restart c).symm.trans hnone)

theorem SideBySide.restart (h : SideBySide e den trusted region s s') (hs : Saved s)
    (hs' : Saved s') : SideBySide e den trusted region (restart s) (restart s') where
  left := h.left.restart hs fun c hplain => (h.plain c hplain).1
  right := h.right.restart hs' fun c hplain => (h.plain c hplain).2
  same := by
    intro c hc hoff hform
    rw [hs.known?_restart, hs'.known?_restart]
    exact h.same c hc hoff hform
  plain := fun _ _ => ⟨rfl, rfl⟩

end Engine

end ComputedFields
