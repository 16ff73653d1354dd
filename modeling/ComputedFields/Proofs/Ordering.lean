import ComputedFields.Dependency.Graph
import Mathlib.Data.List.Nodup

/-!
# Ordered lists

What `Ordered.ofList` and `Ordered.sort` make of a list, for any comparison that is a linear
order, and the comparisons of the library that are: fields, records, edge kinds.
-/

namespace ComputedFields.Ordered

open Std

variable {α : Type} {cmp : α → α → Ordering}

/-! ## Sets -/

theorem mem_insert [LawfulEqCmp cmp] {x y : α} {ys : List α} :
    y ∈ insert cmp x ys ↔ y = x ∨ y ∈ ys := by
  induction ys with
  | nil => simp [insert]
  | cons z zs ih =>
    rw [insert]
    split
    · simp
    · rename_i heq
      have hxz : x = z := LawfulEqCmp.eq_of_compare heq
      subst hxz
      simp
    · simp only [List.mem_cons, ih]
      tauto

theorem mem_ofList [LawfulEqCmp cmp] {y : α} {xs : List α} :
    y ∈ ofList cmp xs ↔ y ∈ xs := by
  induction xs with
  | nil => simp [ofList]
  | cons x xs ih =>
    have hcons : ofList cmp (x :: xs) = insert cmp x (ofList cmp xs) := rfl
    rw [hcons, mem_insert, ih, List.mem_cons]

/-- Insertion keeps a list strictly ascending. -/
theorem pairwise_insert [TransCmp cmp] [LawfulEqCmp cmp] {x : α} {ys : List α}
    (h : ys.Pairwise (cmp · · = .lt)) : (insert cmp x ys).Pairwise (cmp · · = .lt) := by
  induction ys with
  | nil => simp [insert]
  | cons y ys ih =>
    obtain ⟨hy, hys⟩ := List.pairwise_cons.mp h
    rw [insert]
    split
    · rename_i hlt
      refine List.pairwise_cons.mpr ⟨?_, h⟩
      intro z hz
      rcases List.mem_cons.mp hz with rfl | hz
      · exact hlt
      · exact TransCmp.lt_trans hlt (hy z hz)
    · exact h
    · rename_i hgt
      refine List.pairwise_cons.mpr ⟨?_, ih hys⟩
      intro z hz
      rcases mem_insert.mp hz with rfl | hz
      · exact OrientedCmp.lt_of_gt hgt
      · exact hy z hz

theorem pairwise_ofList [TransCmp cmp] [LawfulEqCmp cmp] (xs : List α) :
    (ofList cmp xs).Pairwise (cmp · · = .lt) := by
  induction xs with
  | nil => exact List.Pairwise.nil
  | cons x xs ih => exact pairwise_insert ih

theorem nodup_of_pairwise_lt [ReflCmp cmp] {xs : List α} (h : xs.Pairwise (cmp · · = .lt)) :
    xs.Nodup := by
  refine h.imp ?_
  rintro a b hab rfl
  exact absurd (hab.symm.trans ReflCmp.compare_self) (by decide)

theorem nodup_ofList [TransCmp cmp] [LawfulEqCmp cmp] (xs : List α) : (ofList cmp xs).Nodup :=
  nodup_of_pairwise_lt (pairwise_ofList xs)

/-- A strictly ascending list is known by its elements. -/
theorem eq_of_pairwise_lt [TransCmp cmp] {xs ys : List α} (hx : xs.Pairwise (cmp · · = .lt))
    (hy : ys.Pairwise (cmp · · = .lt)) (hmem : ∀ x, x ∈ xs ↔ x ∈ ys) : xs = ys := by
  have hperm : xs.Perm ys := (List.perm_ext_iff_of_nodup (nodup_of_pairwise_lt hx)
    (nodup_of_pairwise_lt hy)).mpr hmem
  have hanti : ∀ a b, a ∈ xs → b ∈ ys → cmp a b = .lt → cmp b a = .lt → a = b :=
    fun a b _ _ hab hba => absurd hba (OrientedCmp.not_lt_of_lt hab)
  exact hperm.eq_of_pairwise hanti hx hy

theorem ofList_congr [TransCmp cmp] [LawfulEqCmp cmp] {xs ys : List α}
    (hmem : ∀ x, x ∈ xs ↔ x ∈ ys) : ofList cmp xs = ofList cmp ys :=
  eq_of_pairwise_lt (pairwise_ofList xs) (pairwise_ofList ys) fun x => by
    rw [mem_ofList, mem_ofList, hmem]

/-! ## Stable sorts -/

theorem perm_place (x : α) (ys : List α) : (place cmp x ys).Perm (x :: ys) := by
  induction ys with
  | nil => exact List.Perm.refl _
  | cons y ys ih =>
    rw [place]
    split
    · exact (ih.cons y).trans (List.Perm.swap x y ys)
    · exact List.Perm.refl _

theorem perm_sort (xs : List α) : (sort cmp xs).Perm xs := by
  induction xs with
  | nil => exact List.Perm.refl _
  | cons x xs ih => exact (perm_place x _).trans (ih.cons x)

theorem mem_sort {y : α} {xs : List α} : y ∈ sort cmp xs ↔ y ∈ xs := (perm_sort xs).mem_iff

theorem pairwise_place [TransCmp cmp] {x : α} {ys : List α}
    (h : ys.Pairwise (fun a b => (cmp a b).isLE)) :
    (place cmp x ys).Pairwise (fun a b => (cmp a b).isLE) := by
  induction ys with
  | nil => simp [place]
  | cons y ys ih =>
    obtain ⟨hy, hys⟩ := List.pairwise_cons.mp h
    rw [place]
    split
    · rename_i hgt
      refine List.pairwise_cons.mpr ⟨?_, ih hys⟩
      intro z hz
      rcases List.mem_cons.mp ((perm_place x ys).mem_iff.mp hz) with rfl | hz
      · exact Ordering.isLE_of_eq_lt (OrientedCmp.lt_of_gt hgt)
      · exact hy z hz
    · rename_i hgt
      have hle : (cmp x y).isLE := by
        cases hxy : cmp x y with
        | gt => exact absurd hxy hgt
        | lt | eq => rfl
      refine List.pairwise_cons.mpr ⟨?_, h⟩
      intro z hz
      rcases List.mem_cons.mp hz with rfl | hz
      · exact hle
      · exact TransCmp.isLE_trans hle (hy z hz)

/-- A sorted list ascends. -/
theorem pairwise_sort [TransCmp cmp] (xs : List α) :
    (sort cmp xs).Pairwise (fun a b => (cmp a b).isLE) := by
  induction xs with
  | nil => exact List.Pairwise.nil
  | cons x xs ih => exact pairwise_place ih

/-- A sorted list without repetitions ascends strictly. -/
theorem pairwise_lt_sort [TransCmp cmp] [LawfulEqCmp cmp] {xs : List α} (h : xs.Nodup) :
    (sort cmp xs).Pairwise (cmp · · = .lt) := by
  have hnodup : (sort cmp xs).Nodup := (perm_sort xs).nodup_iff.mpr h
  refine ((pairwise_sort xs).and hnodup).imp ?_
  rintro a b ⟨hle, hne⟩
  cases hab : cmp a b with
  | lt => rfl
  | eq => exact absurd (LawfulEqCmp.eq_of_compare hab) hne
  | gt =>
    rw [hab] at hle
    cases hle

end ComputedFields.Ordered

namespace ComputedFields

open Std

/-! ## The comparisons of the library -/

/-- A comparison through keys is a linear order if that of the keys is and no two elements have
one key. -/
theorem lawfulEqCmp_of_key {α κ : Type} [Ord κ] [LawfulEqOrd κ] {cmp : α → α → Ordering}
    (key : α → κ) (hcmp : ∀ a b, cmp a b = Ord.compare (key a) (key b))
    (hkey : ∀ a b, key a = key b → a = b) : LawfulEqCmp cmp where
  compare_self := by intro a; rw [hcmp]; exact ReflCmp.compare_self
  eq_of_compare := by
    intro a b h
    rw [hcmp] at h
    exact hkey a b (LawfulEqCmp.eq_of_compare h)

theorem transCmp_of_key {α κ : Type} [Ord κ] [TransOrd κ] {cmp : α → α → Ordering}
    (key : α → κ) (hcmp : ∀ a b, cmp a b = Ord.compare (key a) (key b)) : TransCmp cmp where
  eq_swap := by intro a b; rw [hcmp, hcmp]; exact OrientedCmp.eq_swap
  isLE_trans := by
    intro a b c hab hbc
    rw [hcmp] at hab hbc ⊢
    exact TransCmp.isLE_trans hab hbc

/-- Two linear orders one after the other, on the parts of a pair, are a linear order. -/
theorem lawfulEqCmp_lex {α β : Type} {cmp : α × β → α × β → Ordering}
    {c : α → α → Ordering} {d : β → β → Ordering} [LawfulEqCmp c] [LawfulEqCmp d]
    (hcmp : ∀ a b, cmp a b = (c a.1 b.1).then (d a.2 b.2)) : LawfulEqCmp cmp where
  compare_self := by intro a; simp [hcmp, ReflCmp.compare_self]
  eq_of_compare := by
    intro a b h
    rw [hcmp, Ordering.then_eq_eq] at h
    exact Prod.ext (LawfulEqCmp.eq_of_compare h.1) (LawfulEqCmp.eq_of_compare h.2)

theorem transCmp_lex {α β : Type} {cmp : α × β → α × β → Ordering}
    {c : α → α → Ordering} {d : β → β → Ordering} [TransCmp c] [TransCmp d]
    (hcmp : ∀ a b, cmp a b = (c a.1 b.1).then (d a.2 b.2)) : TransCmp cmp := by
  have h : TransCmp (compareLex (fun a b : α × β => c a.1 b.1) (fun a b => d a.2 b.2)) :=
    haveI : TransCmp (fun a b : α × β => c a.1 b.1) :=
      { eq_swap := OrientedCmp.eq_swap, isLE_trans := TransCmp.isLE_trans }
    haveI : TransCmp (fun a b : α × β => d a.2 b.2) :=
      { eq_swap := OrientedCmp.eq_swap, isLE_trans := TransCmp.isLE_trans }
    inferInstance
  have heq : cmp = compareLex (fun a b => c a.1 b.1) (fun a b => d a.2 b.2) := by
    funext a b
    exact hcmp a b
  rw [heq]
  exact h

instance : LawfulEqCmp FieldId.compare :=
  lawfulEqCmp_of_key FieldId.index (fun _ _ => rfl) fun ⟨_⟩ ⟨_⟩ h => congrArg _ h

instance : TransCmp FieldId.compare := transCmp_of_key FieldId.index fun _ _ => rfl

instance : LawfulEqCmp RecordId.compare :=
  lawfulEqCmp_of_key RecordId.index (fun _ _ => rfl) fun ⟨_⟩ ⟨_⟩ h => congrArg _ h

instance : TransCmp RecordId.compare := transCmp_of_key RecordId.index fun _ _ => rfl

/-- The number of the link that an edge goes through. -/
def EdgeKind.link? : EdgeKind → Option Nat
  | .direct => none
  | .via link => some link.index

theorem EdgeKind.compare_eq (a b : EdgeKind) :
    a.compare b = Ord.compare a.link? b.link? := by
  cases a <;> cases b <;> rfl

theorem EdgeKind.link?_inj : ∀ a b : EdgeKind, a.link? = b.link? → a = b
  | .direct, .direct, _ => rfl
  | .via ⟨_⟩, .via ⟨_⟩, h => congrArg (fun n => EdgeKind.via ⟨n⟩) (Option.some.inj h)

instance : LawfulEqCmp EdgeKind.compare :=
  lawfulEqCmp_of_key EdgeKind.link? EdgeKind.compare_eq EdgeKind.link?_inj

instance : TransCmp EdgeKind.compare := transCmp_of_key EdgeKind.link? EdgeKind.compare_eq

instance : LawfulEqCmp compareEdges := lawfulEqCmp_lex fun _ _ => rfl

instance : TransCmp compareEdges := transCmp_lex fun _ _ => rfl

instance : LawfulEqCmp Reference.compare where
  compare_self := by
    intro a
    cases a <;> simp [Reference.compare, ReflCmp.compare_self]
  eq_of_compare := by
    intro a b h
    cases a <;> cases b <;> simp only [Reference.compare, reduceCtorEq] at h
    · rw [LawfulEqCmp.eq_of_compare h]
    · rw [Ordering.then_eq_eq] at h
      rw [LawfulEqCmp.eq_of_compare h.1, LawfulEqCmp.eq_of_compare h.2]

end ComputedFields
