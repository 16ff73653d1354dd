import ComputedFields.Engine.Walk
import ComputedFields.Proofs.Engine.Invalidation

/-!
# Walks

The loop that resolves a cell comes to an end. It computes the cell and the formula cells without a
value that it is computed from, each once and after those that it reads, so that no evaluation has
to go back to a cell. It leaves what resolving by recursion leaves.
-/

namespace ComputedFields

open Relation

namespace Engine

variable {e : Engine} {mode : ReadMode} {again : Cell → StateM Session Value}
  {s s' s'' : Session} {start cell a b c : Cell} {cells expanded expanded' : List Cell}
  {tasks tasks' rest stack stack' : List Pending} {result result' : Value} {w w' w'' : Walk}
  {computed computed' : List (Cell × Session)} {P P' : Cell → Prop}

/-! ## What lacks a value -/

/-- A formula cell has no value: none is settled, and none is cached, if the cache counts. -/
def Missing (e : Engine) (mode : ReadMode) (s : Session) (c : Cell) : Prop :=
  e.hasFormula c.2 = true ∧ s.settled.get? c = none ∧
    (mode = .cached → s.cache.get? c.1 c.2 = none)

/-- A cell reads a formula cell that has no value. -/
def Lacks (e : Engine) (mode : ReadMode) (s : Session) (a b : Cell) : Prop :=
  e.Reads a b ∧ e.Missing mode s b

/-- A cell has no value and is one of some cells, or these lack it, directly or through others. -/
def Due (e : Engine) (mode : ReadMode) (s : Session) (cells : List Cell) (c : Cell) : Prop :=
  ∃ a ∈ cells, e.Missing mode s a ∧ ReflTransGen (e.Lacks mode s) a c

theorem missing_iff : e.Missing mode s c ↔ e.hasFormula c.2 = true ∧ s.known? mode c = none := by
  refine and_congr_right fun _ => ?_
  unfold Session.known?
  cases s.settled.get? c <;> cases mode <;> simp

theorem isSome_known?_iff (hform : e.hasFormula c.2 = true) :
    (s.known? mode c).isSome = true ↔ ¬ e.Missing mode s c := by
  rw [missing_iff, Option.isSome_iff_ne_none]
  simp [hform]

theorem Missing.of_reach (ha : e.Missing mode s a) (h : ReflTransGen (e.Lacks mode s) a c) :
    e.Missing mode s c := by
  cases h with
  | refl => exact ha
  | tail _ hlack => exact hlack.2

theorem Due.missing (h : e.Due mode s cells c) : e.Missing mode s c := by
  obtain ⟨a, -, ha, hreach⟩ := h
  exact ha.of_reach hreach

theorem not_due_nil : ¬ e.Due mode s [] c := by
  rintro ⟨a, ha, -⟩
  cases ha

theorem due_cons_iff : e.Due mode s (a :: cells) c ↔
    e.Missing mode s a ∧ ReflTransGen (e.Lacks mode s) a c ∨ e.Due mode s cells c := by
  simp [Due]

/-- What a cell comes to: the cell, and what is due for those that it reads. -/
theorem Sound.reach_iff (hs : e.Sound) : ReflTransGen (e.Lacks mode s) cell c ↔
    c = cell ∨ e.Due mode s (e.inputs cell).reverse c := by
  rw [ReflTransGen.cases_head_iff, eq_comm]
  refine or_congr_right ⟨?_, ?_⟩
  · rintro ⟨b, ⟨hread, hmissing⟩, hreach⟩
    exact ⟨b, List.mem_reverse.mpr (hs.mem_inputs.mpr ⟨hread, hmissing.1⟩), hmissing, hreach⟩
  · rintro ⟨b, hb, hmissing, hreach⟩
    exact ⟨b, ⟨(hs.mem_inputs.mp (List.mem_reverse.mp hb)).1, hmissing⟩, hreach⟩

/-- A cell is not due for those that it reads. -/
theorem Sound.not_due_self (hs : e.Sound) : ¬ e.Due mode s (e.inputs cell).reverse cell := by
  rintro ⟨b, hb, -, hreach⟩
  refine hs.irrefl cell (.head' (hs.mem_inputs.mp (List.mem_reverse.mp hb)).1 ?_)
  exact ReflTransGen.mono (fun _ _ hlack => hlack.1) _ _ hreach

/-- Once the cells of a set have got values, what is missing is what was and is not of the set. -/
theorem missing_of_known (hknown : ∀ c, (s'.known? mode c).isSome = true ↔
      (s.known? mode c).isSome = true ∨ P c) :
    e.Missing mode s' c ↔ e.Missing mode s c ∧ ¬ P c := by
  simp only [missing_iff, ← Option.not_isSome_iff_eq_none, hknown c]
  tauto

/-- What is still due once the cells that one cell comes to have values. -/
theorem due_of_known (hknown : ∀ c, (s'.known? mode c).isSome = true ↔
      (s.known? mode c).isSome = true ∨ ReflTransGen (e.Lacks mode s) a c) :
    e.Due mode s' cells c ↔ e.Due mode s cells c ∧ ¬ ReflTransGen (e.Lacks mode s) a c := by
  have hmissing : ∀ c, e.Missing mode s' c ↔
      e.Missing mode s c ∧ ¬ ReflTransGen (e.Lacks mode s) a c := fun c => missing_of_known hknown
  constructor
  · intro h
    refine ⟨?_, ((hmissing c).mp h.missing).2⟩
    obtain ⟨b, hb, hbmissing, hreach⟩ := h
    refine ⟨b, hb, ((hmissing b).mp hbmissing).1, ReflTransGen.mono ?_ _ _ hreach⟩
    exact fun x y hlack => ⟨hlack.1, ((hmissing y).mp hlack.2).1⟩
  · rintro ⟨⟨b, hb, hbmissing, hreach⟩, hnot⟩
    -- what comes after a cell that has a value by now has one too, so none on the way has
    have hpath : ∀ x, ReflTransGen (e.Lacks mode s) x c → e.Missing mode s x →
        e.Missing mode s' x ∧ ReflTransGen (e.Lacks mode s') x c := by
      intro x hx hxmissing
      induction hx using ReflTransGen.head_induction_on with
      | refl => exact ⟨(hmissing c).mpr ⟨hxmissing, hnot⟩, .refl⟩
      | head hxy hy ih =>
        obtain ⟨hymissing, hy'⟩ := ih hxy.2
        refine ⟨(hmissing _).mpr ⟨hxmissing, fun hax => hnot ?_⟩, .head ⟨hxy.1, hymissing⟩ hy'⟩
        exact (hax.tail hxy).trans hy
    obtain ⟨hbmissing', hreach'⟩ := hpath b hreach hbmissing
    exact ⟨b, hb, hbmissing', hreach'⟩

/-- Once what is due for the formula cells that a cell reads has values, these have. -/
theorem Sound.ready_of_known (hs : e.Sound) (hknown : ∀ c, (s'.known? mode c).isSome = true ↔
      (s.known? mode c).isSome = true ∨ e.Due mode s (e.inputs cell).reverse c) :
    ∀ b ∈ e.inputs cell, (s'.known? mode b).isSome = true := by
  intro b hb
  rw [hknown]
  by_cases hmissing : e.Missing mode s b
  · exact .inr ⟨b, List.mem_reverse.mpr hb, hmissing, .refl⟩
  · exact .inl ((isSome_known?_iff (hs.mem_inputs.mp hb).2).mpr hmissing)

/-! ## Evaluation does not go back -/

theorem valueOr_of_known (hknown : e.hasFormula c.2 = true → (s.known? mode c).isSome = true) :
    e.valueOr mode again c s = (e.look mode s c, s) := by
  unfold valueOr look
  cases hsettled : s.settled.get? c with
  | some v => rfl
  | none =>
    cases hform : e.hasFormula c.2 with
    | false => rfl
    | true =>
      obtain ⟨v, hv⟩ := Option.isSome_iff_exists.mp (hknown hform)
      simp [hv]

/-- Computations of a session that give a value and change nothing. -/
theorem sequential_looks (s : Session) :
    Sequential (n := Id) fun α (x : StateM Session α) y => x s = (y, s) where
  pure := fun _ => rfl
  bind := by
    intro α β x y f g hx hf
    show (f (x s).1 (x s).2) = _
    rw [hx]
    exact hf y

/-- Evaluating a formula whose inputs all have values changes nothing and never goes back to a
cell. -/
theorem Sound.evalM_viewOr (hs : e.Sound) {formula : Formula}
    (hformula : e.formula? cell.2 = some formula)
    (hready : ∀ b ∈ e.inputs cell, (s.known? mode b).isSome = true) :
    formula.root.evalM (e.viewOr mode again cell.1) e.options.now s =
      (formula.root.eval (e.lookView mode s cell.1) e.options.now, s) := by
  have hreads : ∀ reference ∈ formula.root.references, ∀ c,
      reference.Reaches e.store cell.1 c → e.valueOr mode again c s = (e.look mode s c, s) := by
    intro reference hmem c hreach
    refine valueOr_of_known fun hform => hready c (hs.mem_inputs.mpr ⟨?_, hform⟩)
    exact ⟨formula, hformula, reference, by rwa [formula.references_eq], hreach⟩
  exact formula.root.evalM_related (sequential_looks s)
    (fun reference hmem => agreeOn_cells (sequential_looks s) (hreads reference hmem)) fun _ => rfl

/-! ## Turns -/

/-- The cell that the next turn computes, if it does compute one, and the session in which it
does. -/
def computes (e : Engine) (w : Walk) : List (Cell × Session) :=
  match w.stack with
  | .compute cell :: _ => if e.hasFormula cell.2 then [(cell, w.session)] else []
  | _ => []

/-- The loop goes from one state to another. On the way it computes the cells of a list, one after
the other, each in the session that stands beside it. -/
inductive Walks (e : Engine) (mode : ReadMode) (again : Cell → StateM Session Value)
    (start : Cell) : Walk → List (Cell × Session) → Walk → Prop
  | stop (w : Walk) : Walks e mode again start w [] w
  | turn {w w' : Walk} {computed : List (Cell × Session)} (hwork : w.stack ≠ [])
      (h : Walks e mode again start (e.turn mode again start w) computed w') :
      Walks e mode again start w (e.computes w ++ computed) w'

theorem Walks.append (h : Walks e mode again start w computed w')
    (h' : Walks e mode again start w' computed' w'') :
    Walks e mode again start w (computed ++ computed') w'' := by
  induction h with
  | stop => exact h'
  | turn hwork _ ih =>
    rw [List.append_assoc]
    exact .turn hwork (ih h')

theorem Walks.single {next : Pending} (hstack : w.stack = next :: rest)
    (hturn : e.turn mode again start w = w') :
    Walks e mode again start w (e.computes w) w' := by
  subst hturn
  have hwalk := Walks.turn (by rw [hstack]; exact List.cons_ne_nil _ _)
    (Walks.stop (e.turn mode again start w))
  rwa [List.append_nil] at hwalk

/-- A cell that has a value is passed over. -/
theorem walks_known (hform : e.hasFormula cell.2 = true) (hne : cell ≠ start)
    (hknown : (s.known? mode cell).isSome = true) :
    Walks e mode again start ⟨.visit cell :: rest, expanded, s, result⟩ []
      ⟨rest, expanded, s, result⟩ := by
  obtain ⟨φ, hφ⟩ := formula?_of_hasFormula hform
  refine .single rfl ?_
  simp [turn, Pending.cell, hφ, hne, hknown]

/-- Any other waits for the formula cells that it reads. -/
theorem walks_expand (hform : e.hasFormula cell.2 = true)
    (hnew : cell = start ∨ s.known? mode cell = none) (hfresh : cell ∉ expanded) :
    Walks e mode again start ⟨.visit cell :: rest, expanded, s, result⟩ []
      ⟨(e.inputs cell).reverse.map .visit ++ .compute cell :: rest, cell :: expanded, s,
        result⟩ := by
  obtain ⟨φ, hφ⟩ := formula?_of_hasFormula hform
  have hpass : ¬ (cell ≠ start ∧ (s.known? mode cell).isSome = true) := by
    rcases hnew with rfl | hnone
    · simp
    · simp [hnone]
  refine .single rfl ?_
  simp only [turn, Pending.cell, hφ]
  rw [if_neg hpass, if_neg hfresh]

/-- A cell is computed from formula cells that have values. -/
theorem Sound.walks_compute (hs : e.Sound) {formula : Formula}
    (hformula : e.formula? cell.2 = some formula)
    (hready : ∀ b ∈ e.inputs cell, (s.known? mode b).isSome = true) :
    let value := formula.root.eval (e.lookView mode s cell.1) e.options.now
    Walks e mode again start ⟨.compute cell :: rest, expanded, s, result⟩ [(cell, s)]
      ⟨rest, expanded, s.record cell value, if cell = start then value else result⟩ := by
  intro value
  have hcomputes : e.computes ⟨.compute cell :: rest, expanded, s, result⟩ = [(cell, s)] :=
    if_pos (hasFormula_of_formula? hformula)
  rw [← hcomputes]
  refine .single rfl ?_
  simp only [turn, Pending.cell, hformula, StateT.run]
  rw [hs.evalM_viewOr hformula hready]

/-! ## Working off a stack -/

/-- What turns of the loop do for a set of cells: they compute these cells and no others, each once
and after the formula cells that it reads, and give them values. The result is that of the cell from
which the walk starts, if it is one of them. -/
structure Covers (e : Engine) (mode : ReadMode) (start : Cell) (P : Cell → Prop) (w : Walk)
    (computed : List (Cell × Session)) (w' : Walk) : Prop where
  once : (computed.map (·.1)).Nodup
  mem : ∀ c, c ∈ computed.map (·.1) ↔ P c
  ready : ∀ c s, (c, s) ∈ computed → ∀ b ∈ e.inputs c, (s.known? mode b).isSome = true
  expanded : ∀ c, c ∈ w'.expanded ↔ c ∈ w.expanded ∨ P c
  known : ∀ c, (w'.session.known? mode c).isSome = true ↔
    (w.session.known? mode c).isSome = true ∨ P c
  kept : ¬ P start → w'.result = w.result ∧
    w'.session.settled.get? start = w.session.settled.get? start
  found : P start → w'.session.settled.get? start = some w'.result

theorem Covers.append (h : Covers e mode start P w computed w')
    (h' : Covers e mode start P' w' computed' w'') (hdisjoint : ∀ c, P c → ¬ P' c) :
    Covers e mode start (fun c => P c ∨ P' c) w (computed ++ computed') w'' where
  once := by
    rw [List.map_append]
    refine h.once.append h'.once fun c hc hc' => ?_
    exact hdisjoint c ((h.mem c).mp hc) ((h'.mem c).mp hc')
  mem := by
    intro c
    rw [List.map_append, List.mem_append, h.mem, h'.mem]
  ready := by
    intro c s hmem
    rcases List.mem_append.mp hmem with hmem | hmem
    · exact h.ready c s hmem
    · exact h'.ready c s hmem
  expanded := by
    intro c
    rw [h'.expanded, h.expanded, or_assoc]
  known := by
    intro c
    rw [h'.known, h.known, or_assoc]
  kept := by
    intro hnot
    obtain ⟨hP, hP'⟩ := not_or.mp hnot
    obtain ⟨hresult, hsettled⟩ := h.kept hP
    obtain ⟨hresult', hsettled'⟩ := h'.kept hP'
    exact ⟨hresult'.trans hresult, hsettled'.trans hsettled⟩
  found := by
    intro hstart
    by_cases hP' : P' start
    · exact h'.found hP'
    · obtain ⟨hresult, hsettled⟩ := h'.kept hP'
      rw [hsettled, hresult]
      exact h.found (hstart.resolve_right hP')

theorem Covers.nothing : Covers e mode start (fun _ => False) ⟨stack, expanded, s, result⟩ []
    ⟨stack', expanded, s, result⟩ := by
  constructor <;> simp

/-- With some tasks on top of the stack, the loop works them off: it comes to another session, and
covers a set of cells, provided that none of them has been expanded before. It does so whatever
would happen if an evaluation went back to a cell. -/
def WorksOff (e : Engine) (mode : ReadMode) (start : Cell) (tasks : List Pending) (s : Session)
    (P : Cell → Prop) (s' : Session) : Prop :=
  ∀ rest expanded result, (∀ c, P c → c ∉ expanded) → ∃ computed expanded' result',
    (∀ again, Walks e mode again start ⟨tasks ++ rest, expanded, s, result⟩ computed
      ⟨rest, expanded', s', result'⟩) ∧
    Covers e mode start P ⟨tasks ++ rest, expanded, s, result⟩ computed
      ⟨rest, expanded', s', result'⟩

theorem WorksOff.congr (h : WorksOff e mode start tasks s P s') (hP : ∀ c, P' c ↔ P c) :
    WorksOff e mode start tasks s P' s' := by
  have : P' = P := funext fun c => propext (hP c)
  rwa [this]

theorem WorksOff.known_iff (h : WorksOff e mode start tasks s P s') (c : Cell) :
    (s'.known? mode c).isSome = true ↔ (s.known? mode c).isSome = true ∨ P c := by
  obtain ⟨_, _, _, -, hcovers⟩ := h [] [] .null (by simp)
  exact hcovers.known c

theorem WorksOff.nil (s : Session) : WorksOff e mode start [] s (fun _ => False) s :=
  fun _ expanded result _ => ⟨[], expanded, result, fun _ => .stop _, .nothing⟩

theorem WorksOff.append (h : WorksOff e mode start tasks s P s')
    (h' : WorksOff e mode start tasks' s' P' s'') (hdisjoint : ∀ c, P c → ¬ P' c) :
    WorksOff e mode start (tasks ++ tasks') s (fun c => P c ∨ P' c) s'' := by
  intro rest expanded result hfresh
  rw [List.append_assoc]
  obtain ⟨computed, expanded₁, result₁, hwalk, hcovers⟩ :=
    h (tasks' ++ rest) expanded result fun c hc => hfresh c (.inl hc)
  -- what the first tasks have expanded is what they have covered
  obtain ⟨computed', expanded₂, result₂, hwalk', hcovers'⟩ :=
    h' rest expanded₁ result₁ fun c hc hmem => by
      rcases (hcovers.expanded c).mp hmem with hmem | hP
      · exact hfresh c (.inr hc) hmem
      · exact hdisjoint c hP hc
  exact ⟨computed ++ computed', expanded₂, result₂,
    fun again => (hwalk again).append (hwalk' again), hcovers.append hcovers' hdisjoint⟩

theorem WorksOff.known (hform : e.hasFormula cell.2 = true) (hne : cell ≠ start)
    (hknown : (s.known? mode cell).isSome = true) :
    WorksOff e mode start [.visit cell] s (fun _ => False) s :=
  fun _ expanded result _ =>
    ⟨[], expanded, result, fun _ => walks_known hform hne hknown, .nothing⟩

/-- Computing a cell after what is due for the formula cells that it reads covers all that the cell
comes to. -/
theorem Sound.covers_compute (hs : e.Sound) (v : Value)
    (h : Covers e mode start (e.Due mode s (e.inputs cell).reverse)
      ⟨stack, cell :: expanded, s, result⟩ computed ⟨stack', expanded', s', result'⟩) :
    Covers e mode start (ReflTransGen (e.Lacks mode s) cell)
      ⟨.visit cell :: rest, expanded, s, result⟩ (computed ++ [(cell, s')])
      ⟨rest, expanded', s'.record cell v, if cell = start then v else result'⟩ where
  once := by
    rw [List.map_append]
    refine h.once.append (List.nodup_singleton cell) ?_
    rw [List.map_singleton, List.disjoint_singleton]
    exact fun hmem => hs.not_due_self ((h.mem cell).mp hmem)
  mem := by
    intro c
    rw [List.map_append, List.mem_append, h.mem, hs.reach_iff, List.map_singleton,
      List.mem_singleton, or_comm]
  ready := by
    intro c t hmem
    rcases List.mem_append.mp hmem with hmem | hmem
    · exact h.ready c t hmem
    · obtain ⟨rfl, rfl⟩ := Prod.mk.inj (List.mem_singleton.mp hmem)
      exact hs.ready_of_known h.known
  expanded := by
    intro c
    rw [h.expanded, hs.reach_iff, List.mem_cons, or_assoc, or_left_comm]
  known := by
    intro c
    have hknown := h.known c
    simp only [record_known?, hs.reach_iff]
    by_cases hc : c = cell
    · simp [hc]
    · simpa [hc] using hknown
  kept := by
    intro hnot
    obtain ⟨hne, hdue⟩ := not_or.mp (mt hs.reach_iff.mpr hnot)
    obtain ⟨hresult, hsettled⟩ := h.kept hdue
    refine ⟨(if_neg (Ne.symm hne)).trans hresult, ?_⟩
    rw [record_get?_settled, if_neg hne]
    exact hsettled
  found := by
    intro hstart
    rw [record_get?_settled]
    by_cases hc : cell = start
    · rw [if_pos hc.symm, if_pos hc]
    · rw [if_neg (Ne.symm hc), if_neg hc]
      exact h.found ((hs.reach_iff.mp hstart).resolve_left (Ne.symm hc))

/-- A cell is worked off by working off the formula cells that it reads and then computing it. -/
theorem Sound.worksOff_new (hs : e.Sound) {formula : Formula}
    (hformula : e.formula? cell.2 = some formula)
    (hnew : cell = start ∨ s.known? mode cell = none)
    (hinputs : WorksOff e mode start ((e.inputs cell).reverse.map .visit) s
      (e.Due mode s (e.inputs cell).reverse) s') :
    WorksOff e mode start [.visit cell] s (ReflTransGen (e.Lacks mode s) cell)
      (s'.record cell (formula.root.eval (e.lookView mode s' cell.1) e.options.now)) := by
  intro rest expanded result hfresh
  obtain ⟨computed, expanded', result', hwalk, hcovers⟩ :=
    hinputs (.compute cell :: rest) (cell :: expanded) result fun c hc hmem => by
      rcases List.mem_cons.mp hmem with rfl | hmem
      · exact hs.not_due_self hc
      · exact hfresh c (hs.reach_iff.mpr (.inr hc)) hmem
  refine ⟨computed ++ [(cell, s')], expanded', _, fun again => ?_, hs.covers_compute _ hcovers⟩
  have hexpand : Walks e mode again start ⟨.visit cell :: rest, expanded, s, result⟩ []
      ⟨(e.inputs cell).reverse.map .visit ++ .compute cell :: rest, cell :: expanded, s, result⟩ :=
    walks_expand (hasFormula_of_formula? hformula) hnew (hfresh cell .refl)
  exact hexpand.append
    ((hwalk again).append (hs.walks_compute hformula (hs.ready_of_known hcovers.known)))

/-- Cells are worked off one after the other, if each of them that has no value is. -/
theorem worksOff_all (step : Session → Cell → Session)
    (hform : ∀ a ∈ cells, e.hasFormula a.2 = true) (hne : ∀ a ∈ cells, a ≠ start)
    (hstep : ∀ a ∈ cells, ∀ s, s.known? mode a = none →
      WorksOff e mode start [.visit a] s (ReflTransGen (e.Lacks mode s) a) (step s a)) :
    WorksOff e mode start (cells.map .visit) s (e.Due mode s cells)
      (cells.foldl (fun s a => if (s.known? mode a).isSome then s else step s a) s) := by
  induction cells generalizing s with
  | nil => exact (WorksOff.nil s).congr fun c => iff_false_intro not_due_nil
  | cons a cells ih =>
    obtain ⟨hforma, hform⟩ := List.forall_mem_cons.mp hform
    obtain ⟨hnea, hne⟩ := List.forall_mem_cons.mp hne
    obtain ⟨hstepa, hstep⟩ := List.forall_mem_cons.mp hstep
    rw [List.map_cons, List.foldl_cons]
    cases hknown : (s.known? mode a).isSome with
    | true =>
      rw [if_pos rfl]
      have hnot := (isSome_known?_iff hforma).mp hknown
      refine ((WorksOff.known hforma hnea hknown).append (ih hform hne hstep)
        (fun _ hfalse => hfalse.elim)).congr fun c => ?_
      simp [due_cons_iff, hnot]
    | false =>
      rw [if_neg Bool.false_ne_true]
      have hnone := Option.isNone_iff_eq_none.mp (Option.isSome_eq_false_iff.mp hknown)
      have hmissing : e.Missing mode s a := missing_iff.mpr ⟨hforma, hnone⟩
      have hfirst := hstepa s hnone
      -- what is due after the first cell is what this one has not covered
      have hdue : ∀ c, e.Due mode (step s a) cells c ↔
          e.Due mode s cells c ∧ ¬ ReflTransGen (e.Lacks mode s) a c :=
        fun c => due_of_known hfirst.known_iff
      refine (hfirst.append (ih hform hne hstep) fun c hc hc' => ((hdue c).mp hc').2 hc).congr
        fun c => ?_
      rw [due_cons_iff, hdue]
      tauto

/-- The loop works off a cell that it cannot pass over as recursion resolves it. -/
theorem Sound.worksOff_resolve (hs : e.Sound) (limit : Nat) (hform : e.hasFormula cell.2 = true)
    (hheight : e.graph.height cell.2 < limit) (hfrom : ReflTransGen e.Reads start cell)
    (hnew : cell = start ∨ s.known? mode cell = none) :
    WorksOff e mode start [.visit cell] s (ReflTransGen (e.Lacks mode s) cell)
      (e.resolve mode limit s cell) := by
  induction limit generalizing s cell with
  | zero => exact absurd hheight (Nat.not_lt_zero _)
  | succ limit ih =>
    obtain ⟨φ, hφ⟩ := formula?_of_hasFormula hform
    rw [resolve, hφ]
    have hreads : ∀ a ∈ (e.inputs cell).reverse, e.Reads cell a ∧ e.hasFormula a.2 = true :=
      fun a ha => hs.mem_inputs.mp (List.mem_reverse.mp ha)
    refine hs.worksOff_new hφ hnew (worksOff_all (e.resolve mode limit)
      (fun a ha => (hreads a ha).2) (fun a ha => ?_) fun a ha s hnone => ?_)
    · -- no read leads back to the start
      rintro rfl
      exact hs.irrefl a (.tail' hfrom (hreads a ha).1)
    · -- the cells that it reads are lower, so one step fewer is enough for them
      obtain ⟨hread, hforma⟩ := hreads a ha
      have hlower := hs.height_lt hread hforma
      exact ih hforma (by omega) (hfrom.tail hread) (.inr hnone)

/-! ## The whole walk -/

/-- Whatever happened to an engine and whatever a session knows: the walk from a formula cell comes
to its end, whether or not the cell has a value. It computes each cell at most once, and just those
that can be reached from the start by reads of cells that have no value. When it computes a cell,
no formula cell that this one reads lacks a value, and the walk would be the same with anything else
in the place of going back to a cell. What it leaves is what resolving by recursion leaves, and what
a read of the cell gives. -/
theorem walk_exact (schema : Schema) (store : Store) (options : EngineOptions)
    (events : List Event) :
    let e := history schema store options events
    ∀ (mode : ReadMode) (s : Session) (start : Cell), e.hasFormula start.2 = true →
      ∃ computed final, (∀ again, e.Walks mode again start (.begin s start) computed final) ∧
        final.stack = [] ∧
        (computed.map (·.1)).Nodup ∧
        (∀ c, c ∈ computed.map (·.1) ↔ ReflTransGen (e.Lacks mode s) start c) ∧
        (∀ c s', (c, s') ∈ computed → ∀ b, e.Reads c b → ¬ e.Missing mode s' b) ∧
        final.session = e.resolve mode e.formulas.size s start ∧
        final.session.settled.get? start = some final.result ∧
        (e.Missing mode s start → e.valueOf mode start s = (final.result, final.session)) := by
  intro e mode s start hform
  have hs : e.Sound := (history_wired schema store options events).sound
  have hworksOff : WorksOff e mode start [.visit start] s (ReflTransGen (e.Lacks mode s) start)
      (e.resolve mode e.formulas.size s start) :=
    hs.worksOff_resolve e.formulas.size hform (hs.height_lt_size hform) .refl (.inl rfl)
  obtain ⟨computed, expanded, result, hwalk, hcovers⟩ := hworksOff [] [] .null (by simp)
  have hfound := hcovers.found .refl
  refine ⟨computed, _, hwalk, rfl, hcovers.once, hcovers.mem, ?_, rfl, hfound, ?_⟩
  · intro c s' hmem b hread hmissing
    have hknown := hcovers.ready c s' hmem b (hs.mem_inputs.mpr ⟨hread, hmissing.1⟩)
    exact (isSome_known?_iff hmissing.1).mp hknown hmissing
  · intro hmissing
    rw [valueOf_of_hasFormula hform, (missing_iff.mp hmissing).2]
    simp only
    rw [hfound, Option.getD_some]

/-- The label shows the price, and the tag shows the label. -/
def chained : List Event :=
  [.operate (.define ⟨2⟩ "{label}"), .operate (.define ⟨1⟩ "{price}")]

/-- The engine with these two formulas, over records with a price. -/
def chainEngine : Engine := history tagSchema tenStore newYear chained

/-- The walk from a tag that nobody has read. -/
theorem walk_tag :
    chainEngine.hasFormula ⟨2⟩ = true ∧ ∃ computed final,
      (∀ again, chainEngine.Walks .fresh again (⟨0⟩, ⟨2⟩)
        (.begin ⟨.empty, .empty⟩ (⟨0⟩, ⟨2⟩)) computed final) ∧
      final.stack = [] ∧ (computed.map (·.1)).Nodup ∧ final.result = .text "ten" := by
  have hform : chainEngine.hasFormula ⟨2⟩ = true := by cbv
  have hsettled : (chainEngine.resolve .fresh chainEngine.formulas.size ⟨.empty, .empty⟩
      (⟨0⟩, ⟨2⟩)).settled.get? (⟨0⟩, ⟨2⟩) = some (.text "ten") := by cbv
  obtain ⟨computed, final, hwalk, hstack, honce, -, -, hsession, hresult, -⟩ :=
    walk_exact tagSchema tenStore newYear chained .fresh ⟨.empty, .empty⟩ (⟨0⟩, ⟨2⟩) hform
  rw [hsession] at hresult
  exact ⟨hform, computed, final, hwalk, hstack, honce,
    (Option.some.inj (hsettled.symm.trans hresult)).symm⟩

end Engine

end ComputedFields
