import ComputedFields.Proofs.Engine.Sound
import ComputedFields.Proofs.Formula.Evaluation

/-!
# The meaning of cells

What each cell is worth, without regard to sessions and the cache: a formula cell the value of
its formula over the meanings of what it reads, any other cell what is stored. In a sound engine
exactly one assignment of values satisfies this.
-/

namespace ComputedFields

open Relation

/-- A reference of a formula on a record reads a cell. -/
def Reference.Reaches (store : Store) (record : RecordId) : Reference → Cell → Prop
  | .field f, cell => cell = (record, f)
  | .linked link f, cell =>
    cell = (record, link) ∨ cell.2 = f ∧ cell.1 ∈ store.linkedRecords record link

/-- Reading in some way on a record leads to another. -/
def EdgeKind.Leads (store : Store) (record target : RecordId) : EdgeKind → Prop
  | .direct => target = record
  | .via link => target ∈ store.linkedRecords record link

namespace Engine

variable {e e' : Engine} {a b cell : Cell} {den den' : Cell → Value}

/-- A formula cell reads a cell. -/
def Reads (e : Engine) (reader cell : Cell) : Prop :=
  ∃ formula, e.formula? reader.2 = some formula ∧
    ∃ reference ∈ formula.references, reference.Reaches e.store reader.1 cell

/-- A record under an assignment of values to cells. -/
def viewUnder (e : Engine) (den : Cell → Value) (record : RecordId) : View Id where
  fieldValue f := den (record, f)
  linkedValues link f := (e.store.linkedRecords record link).map fun target => den (target, f)

/-- The value of a cell, given those of the cells that it reads. -/
def valueUnder (e : Engine) (den : Cell → Value) (cell : Cell) : Value :=
  match e.formula? cell.2 with
  | some formula => formula.root.eval (e.viewUnder den cell.1) e.options.now
  | none => e.store.fieldValue cell.1 cell.2

/-- An assignment gives every cell the value of its formula over the values of what it reads, or
what is stored. -/
def Denotes (e : Engine) (den : Cell → Value) : Prop := ∀ cell, den cell = e.valueUnder den cell

/-- The meaning of cells, for chains of reads up to a length. -/
def denoteWithin (e : Engine) : Nat → Cell → Value
  | 0, cell => e.store.fieldValue cell.1 cell.2
  | n + 1, cell => e.valueUnder (e.denoteWithin n) cell

/-- The meaning of cells. -/
def denote (e : Engine) : Cell → Value := e.denoteWithin e.formulas.size

/-! ## Reads go down -/

theorem Reads.hasFormula (h : e.Reads a b) : e.hasFormula a.2 = true := by
  obtain ⟨φ, hφ, -⟩ := h
  exact hasFormula_of_formula? hφ

/-- A reference reaches what its edges lead to. -/
theorem reaches_iff {store : Store} {record : RecordId} {reference : Reference} :
    reference.Reaches store record cell ↔
      ∃ kind : EdgeKind, (cell.2, kind) ∈ reference.edges ∧ kind.Leads store record cell.1 := by
  obtain ⟨r, g⟩ := cell
  cases reference with
  | field f =>
    constructor
    · intro h
      obtain ⟨rfl, rfl⟩ := Prod.mk.inj h
      exact ⟨.direct, by simp [Reference.edges], rfl⟩
    · rintro ⟨kind, hedge, hlead⟩
      obtain ⟨rfl, rfl⟩ := Prod.mk.inj (List.mem_singleton.mp hedge)
      exact Prod.ext hlead rfl
  | linked link f =>
    constructor
    · rintro (h | ⟨rfl, hmem⟩)
      · obtain ⟨rfl, rfl⟩ := Prod.mk.inj h
        exact ⟨.direct, by simp [Reference.edges], rfl⟩
      · exact ⟨.via link, by simp [Reference.edges], hmem⟩
    · rintro ⟨kind, hedge, hlead⟩
      rcases List.mem_cons.mp hedge with hedge | hedge
      · obtain ⟨rfl, rfl⟩ := Prod.mk.inj hedge
        exact .inl (Prod.ext hlead rfl)
      · obtain ⟨rfl, rfl⟩ := Prod.mk.inj (List.mem_singleton.mp hedge)
        exact .inr ⟨rfl, hlead⟩

/-- The graph holds all reads between cells. -/
theorem Sound.reads_iff (hs : e.Sound) : e.Reads a b ↔
    ∃ kind : EdgeKind, (b.2, kind) ∈ e.graph.edgesFrom a.2 ∧ kind.Leads e.store a.1 b.1 := by
  constructor
  · rintro ⟨φ, hφ, reference, hmem, hreach⟩
    obtain ⟨kind, hedge, hlead⟩ := reaches_iff.mp hreach
    refine ⟨kind, ?_, hlead⟩
    rw [hs.edgesFrom_eq hφ]
    exact mem_edgesOf.mpr ⟨reference, hmem, hedge⟩
  · rintro ⟨kind, hedge, hlead⟩
    have hform : e.hasFormula a.2 = true := by
      rw [← hs.isFormula_eq]
      exact DependencyGraph.Reads.isFormula ⟨kind, hedge⟩
    obtain ⟨φ, hφ⟩ := formula?_of_hasFormula hform
    rw [hs.edgesFrom_eq hφ] at hedge
    obtain ⟨reference, hmem, hedge⟩ := mem_edgesOf.mp hedge
    exact ⟨φ, hφ, reference, hmem, reaches_iff.mpr ⟨kind, hedge, hlead⟩⟩

/-- A read between cells is one between their fields. -/
theorem Sound.reads_fields (hs : e.Sound) (h : e.Reads a b) : e.graph.Reads a.2 b.2 := by
  obtain ⟨kind, hedge, -⟩ := hs.reads_iff.mp h
  exact ⟨kind, hedge⟩

theorem Sound.transGen_fields (hs : e.Sound) (h : TransGen e.Reads a b) :
    TransGen e.graph.Reads a.2 b.2 :=
  TransGen.lift Prod.snd (fun _ _ hab => hs.reads_fields hab) a b h

/-- No cell reads itself, directly or through others. -/
theorem Sound.irrefl (hs : e.Sound) (a : Cell) : ¬ TransGen e.Reads a a :=
  fun h => hs.graph.acyclic _ (hs.transGen_fields h)

theorem Sound.height_lt (hs : e.Sound) (h : e.Reads a b) (hb : e.hasFormula b.2 = true) :
    e.graph.height b.2 < e.graph.height a.2 :=
  DependencyGraph.height_lt hs.graph.acyclic (hs.reads_fields h) (by rw [hs.isFormula_eq, hb])

theorem Sound.height_lt_size (hs : e.Sound) (h : e.hasFormula cell.2 = true) :
    e.graph.height cell.2 < e.formulas.size := by
  rw [hs.size_eq]
  exact DependencyGraph.height_lt_size hs.graph.acyclic (by rw [hs.isFormula_eq, h])

/-! ## The value depends on reads only -/

/-- Two engines give a cell the same value if they agree on its formula, or its stored value, and
on what the cell reads. The stored values and links of formula fields play no part. -/
theorem Sound.valueUnder_congr (hs : e.Sound) (hformula : e'.formula? cell.2 = e.formula? cell.2)
    (hstored : e.hasFormula cell.2 = false →
      e'.store.fieldValue cell.1 cell.2 = e.store.fieldValue cell.1 cell.2)
    (hlinks : ∀ c, e.Reads cell c → e.hasFormula c.2 = false →
      e'.store.linkedRecords c.1 c.2 = e.store.linkedRecords c.1 c.2)
    (hnow : e'.options.now = e.options.now) (hden : ∀ c, e.Reads cell c → den' c = den c) :
    e'.valueUnder den' cell = e.valueUnder den cell := by
  rw [valueUnder, valueUnder, hformula]
  cases hφ : e.formula? cell.2 with
  | none => exact hstored (Entries.contains_eq_false.mpr hφ)
  | some φ =>
    simp only
    rw [hnow]
    refine φ.root.eval_congr fun reference hmem => ?_
    rw [← φ.references_eq] at hmem
    have hreads : ∀ c, reference.Reaches e.store cell.1 c → e.Reads cell c :=
      fun c hc => ⟨φ, hφ, reference, hmem, hc⟩
    cases reference with
    | field f => exact hden _ (hreads _ rfl)
    | linked link f =>
      -- the link is stored, so both engines follow it to the same records
      have hlink : e.hasFormula link = false :=
        hs.hasFormula_link hφ hmem
      have hsame := hlinks (cell.1, link) (hreads _ (.inl rfl)) hlink
      show (e'.store.linkedRecords cell.1 link).map _ = (e.store.linkedRecords cell.1 link).map _
      rw [hsame]
      refine List.map_congr_left fun target htarget => ?_
      exact hden _ (hreads (target, f) (.inr ⟨rfl, htarget⟩))

theorem Sound.valueUnder_congr_self (hs : e.Sound) (hden : ∀ c, e.Reads cell c → den' c = den c) :
    e.valueUnder den' cell = e.valueUnder den cell :=
  hs.valueUnder_congr rfl (fun _ => rfl) (fun _ _ _ => rfl) rfl hden

/-! ## The meaning exists -/

theorem valueUnder_of_not_hasFormula (h : e.hasFormula cell.2 = false) :
    e.valueUnder den cell = e.store.fieldValue cell.1 cell.2 := by
  rw [valueUnder, formula?_eq_none h]

/-- A bound on the length of chains above the height of a cell does not matter. -/
theorem Sound.denoteWithin_eq (hs : e.Sound) (n : Nat) (cell : Cell)
    (hheight : e.hasFormula cell.2 = true → e.graph.height cell.2 < n) :
    e.denoteWithin n cell = e.valueUnder (e.denoteWithin n) cell := by
  induction n generalizing cell with
  | zero =>
    have hplain : e.hasFormula cell.2 = false := by
      by_contra h
      exact absurd (hheight ((Bool.not_eq_false _).mp h)) (Nat.not_lt_zero _)
    rw [valueUnder_of_not_hasFormula hplain, denoteWithin]
  | succ n ih =>
    refine hs.valueUnder_congr_self fun c hc => ?_
    -- what the cell reads is lower, so a shorter bound is enough for it
    refine ih c fun hform => ?_
    have hlt := hs.height_lt hc hform
    have := hheight hc.hasFormula
    omega

theorem Sound.denotes (hs : e.Sound) : e.Denotes e.denote :=
  fun cell => hs.denoteWithin_eq _ cell fun hform => hs.height_lt_size hform

/-! ## The meaning is unique -/

/-- Two engines that agree on a set of cells, which no read leads out of, agree on the meaning of
these cells. -/
theorem Sound.denotes_congr (hs : e.Sound) {P : Cell → Prop}
    (hclosed : ∀ a b, P a → e.Reads a b → P b)
    (hformula : ∀ c, P c → e'.formula? c.2 = e.formula? c.2)
    (hstored : ∀ c, P c → e.hasFormula c.2 = false →
      e'.store.fieldValue c.1 c.2 = e.store.fieldValue c.1 c.2)
    (hlinks : ∀ c, P c → e.hasFormula c.2 = false →
      e'.store.linkedRecords c.1 c.2 = e.store.linkedRecords c.1 c.2)
    (hnow : e'.options.now = e.options.now) (hden : e.Denotes den) (hden' : e'.Denotes den')
    (cell : Cell) (hcell : P cell) : den' cell = den cell := by
  -- cells without a formula read nothing; heights settle the others
  have hstep : ∀ a, P a → (∀ b, e.Reads a b → den' b = den b) → den' a = den a := by
    intro a ha hreads
    rw [hden' a, hden a]
    exact hs.valueUnder_congr (hformula a ha) (hstored a ha)
      (fun c hc => hlinks c (hclosed a c ha hc)) hnow hreads
  have hplain : ∀ a, P a → e.hasFormula a.2 ≠ true → den' a = den a :=
    fun a ha hno => hstep a ha fun b hb => absurd hb.hasFormula hno
  induction hn : e.graph.height cell.2 using Nat.strong_induction_on generalizing cell with
  | _ n ih =>
    subst hn
    refine hstep cell hcell fun b hb => ?_
    by_cases hform : e.hasFormula b.2 = true
    · exact ih _ (hs.height_lt hb hform) b (hclosed cell b hcell hb) rfl
    · exact hplain b (hclosed cell b hcell hb) hform

theorem Sound.denotes_unique (hs : e.Sound) (hden : e.Denotes den) (hden' : e.Denotes den') :
    den' = den := by
  funext cell
  exact hs.denotes_congr (P := fun _ => True) (fun _ _ _ _ => trivial) (fun _ _ => rfl)
    (fun _ _ _ => rfl) (fun _ _ _ => rfl) rfl hden hden' cell trivial

end Engine

end ComputedFields
