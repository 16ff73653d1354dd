import ComputedFields.Proofs.Engine.Batch
import ComputedFields.Proofs.Engine.Histories
import ComputedFields.Proofs.Graph.Cycles

/-!
# The order of cells

Whatever happened to an engine, it puts any cells into order: those of a field stand together,
ascending by record, after those of all fields that the field reads. This goes by fields alone; the
links between the records play no part.
-/

namespace ComputedFields

namespace Engine

variable {e : Engine} {f p : FieldId} {cells : List Cell} {rank : FieldId → Nat}

/-- The formula of a field refers to a field, as such, as a link, or through one. -/
def ReadsField (e : Engine) (f p : FieldId) : Prop :=
  ∃ formula, e.formula? f = some formula ∧ p ∈ fieldsOf formula.references

/-- The graph holds what the formulas refer to. -/
theorem Wired.readsField_iff (h : e.Wired) : e.ReadsField f p ↔ e.graph.Reads f p := by
  rw [ReadsField, DependencyGraph.Reads, DependencyGraph.edgesFrom, h.reads]
  cases hφ : e.formula? f with
  | none => simp
  | some φ => simp [mem_fieldsOf]

/-- Cells stand in stages, one for each field: the cells of a field next to each other, ascending
by record, and behind those of the fields that it reads. -/
structure Staged (e : Engine) (cells : List Cell) : Prop where
  together : ∀ (i j k : Nat) (_ : i ≤ j) (_ : j ≤ k) (_ : k < cells.length),
    cells[i].2 = cells[k].2 → cells[j].2 = cells[k].2
  ascending : ∀ (i j : Nat) (_ : i ≤ j) (_ : j < cells.length),
    cells[i].2 = cells[j].2 → cells[i].1.index ≤ cells[j].1.index
  behind : ∀ (i j : Nat) (_ : i < cells.length) (_ : j < cells.length),
    e.ReadsField cells[i].2 cells[j].2 → j < i

/-- Cells are in stages if they ascend by a rank of their fields, by which no two of these are alike
and each is above those that it reads, and then by record. -/
theorem Staged.of_rank (hinj : ∀ a ∈ cells, ∀ b ∈ cells, rank a.2 = rank b.2 → a.2 = b.2)
    (hreads : ∀ a ∈ cells, ∀ b ∈ cells, e.ReadsField a.2 b.2 → rank b.2 < rank a.2)
    (hpair : cells.Pairwise fun a b =>
      rank a.2 < rank b.2 ∨ rank a.2 = rank b.2 ∧ a.1.index ≤ b.1.index) : e.Staged cells := by
  have hle : ∀ (i j : Nat) (_ : i ≤ j) (_ : j < cells.length), rank cells[i].2 < rank cells[j].2 ∨
      rank cells[i].2 = rank cells[j].2 ∧ cells[i].1.index ≤ cells[j].1.index := by
    intro i j hij hj
    rcases Nat.eq_or_lt_of_le hij with rfl | hlt
    · exact .inr ⟨rfl, Nat.le_refl _⟩
    · exact List.pairwise_iff_getElem.mp hpair i j (by omega) hj hlt
  constructor
  · intro i j k hij hjk hk hsame
    -- the rank in between is no other than that at both ends
    have hlow := hle i j hij (by omega)
    have hhigh := hle j k hjk hk
    rw [hsame] at hlow
    exact hinj _ (List.getElem_mem _) _ (List.getElem_mem _) (by omega)
  · intro i j hij hj hsame
    have := hle i j hij hj
    rw [hsame] at this
    omega
  · intro i j hi hj hread
    have hlt := hreads _ (List.getElem_mem hi) _ (List.getElem_mem hj) hread
    by_contra hji
    have := hle i j (by omega) hj
    omega

theorem Wired.staged (h : e.Wired) (cells : List Cell) :
    ∃ ordered, e.orderCells cells = .ok ordered ∧ ordered.Perm cells ∧ e.Staged ordered := by
  obtain ⟨rank, ordered, hok, hperm, hinj, hreads, hpair⟩ :=
    orderCells_ranked h.graph.toConsistent cells
  refine ⟨ordered, hok, hperm, .of_rank ?_ ?_ hpair⟩
  · exact fun a ha b hb => hinj a (hperm.subset ha) b (hperm.subset hb)
  · exact fun a ha b hb hread =>
      hreads a (hperm.subset ha) b (hperm.subset hb) (h.readsField_iff.mp hread)

/-- Any cells, with repetitions and with cells that have no formula, can be put into stages, whatever
happened to the engine. No cell is lost, and none comes more or less often than it did. -/
theorem orderCells_exact (schema : Schema) (store : Store) (options : EngineOptions)
    (events : List Event) (cells : List Cell) :
    ∃ ordered, (history schema store options events).orderCells cells = .ok ordered ∧
      ordered.Perm cells ∧ (history schema store options events).Staged ordered :=
  (history_wired schema store options events).staged cells

/-- Prices come before the labels that show them, and one label is asked for twice. -/
example : (history priceSchema .empty newYear labelled).orderCells
    [(⟨1⟩, ⟨1⟩), (⟨0⟩, ⟨1⟩), (⟨1⟩, ⟨0⟩), (⟨0⟩, ⟨1⟩)] =
      .ok [(⟨1⟩, ⟨0⟩), (⟨0⟩, ⟨1⟩), (⟨0⟩, ⟨1⟩), (⟨1⟩, ⟨1⟩)] := by cbv

end Engine

end ComputedFields
