import ComputedFields.Dependency.Schedule
import ComputedFields.Proofs.Graph.Acyclic

/-!
# Schedules

`schedule` orders any set of fields so that each comes after those of the set that it reads, and
takes the first field in registration order wherever there is a choice. `Places` is that order as
a relation; it always comes to place all fields.
-/

namespace ComputedFields

open Relation

namespace DependencyGraph

variable {g : DependencyGraph} {fs done ready placed : List FieldId} {f x p : FieldId}

/-! ## The order as a relation -/

/-- A field of the set whose turn may come: it is not placed, and all that it reads within the set
is. -/
def Free (g : DependencyGraph) (fs done : List FieldId) (f : FieldId) : Prop :=
  f ∈ fs ∧ f ∉ done ∧ ∀ p ∈ fs, g.Reads f p → p ∈ done

/-- The fields of a list are placed one after the other, each the first of those that are free,
until none is. -/
inductive Places (g : DependencyGraph) (fs : List FieldId) : List FieldId → List FieldId → Prop
  | stop {done : List FieldId} (hnone : ∀ x, ¬ g.Free fs done x) : Places g fs done []
  | place {done rest : List FieldId} {f : FieldId} (hfree : g.Free fs done f)
      (hfirst : ∀ x, g.Free fs done x → x = f ∨ g.compareFields f x = .lt)
      (hrest : Places g fs (f :: done) rest) : Places g fs done (f :: rest)

theorem Places.mem_fs (h : Places g fs done placed) (hf : f ∈ placed) : f ∈ fs ∧ f ∉ done := by
  induction h with
  | stop => cases hf
  | place hfree _ _ ih =>
    rcases List.mem_cons.mp hf with rfl | hf
    · exact ⟨hfree.1, hfree.2.1⟩
    · obtain ⟨hfs, hnot⟩ := ih hf
      exact ⟨hfs, fun hd => hnot (List.mem_cons_of_mem _ hd)⟩

theorem Places.nodup (h : Places g fs done placed) : placed.Nodup := by
  induction h with
  | stop => exact List.nodup_nil
  | place _ _ hrest ih =>
    refine List.nodup_cons.mpr ⟨?_, ih⟩
    intro hf
    exact (hrest.mem_fs hf).2 (by simp)

/-- No field reads one that is placed after it. -/
theorem Places.pairwise (h : Places g fs done placed) :
    placed.Pairwise fun a b => ¬ g.Reads a b := by
  induction h with
  | stop => exact List.Pairwise.nil
  | place hfree _ hrest ih =>
    refine List.pairwise_cons.mpr ⟨?_, ih⟩
    intro b hb hread
    obtain ⟨hfs, hnot⟩ := hrest.mem_fs hb
    exact hnot (List.mem_cons_of_mem _ (hfree.2.2 b hfs hread))

/-- Where a field stands, it is the first of those that are free. -/
theorem Places.split {before after : List FieldId} (h : Places g fs done (before ++ f :: after)) :
    g.Free fs (before.reverse ++ done) f ∧
      ∀ x, g.Free fs (before.reverse ++ done) x → x = f ∨ g.compareFields f x = .lt := by
  induction before generalizing done with
  | nil =>
    cases h with
    | place hfree hfirst _ => exact ⟨hfree, hfirst⟩
  | cons b before ih =>
    cases h with
    | place _ _ hrest => simpa using ih hrest

/-- In the end no field is free. -/
theorem Places.end (h : Places g fs done placed) (x : FieldId) :
    ¬ g.Free fs (placed.reverse ++ done) x := by
  induction h with
  | stop hnone => exact hnone x
  | place _ _ _ ih => simpa using ih

/-- Without cycles a field that is not placed would wait for one that is free, so all are
placed. -/
theorem Places.mem_or_done (hg : g.Acyclic) (h : Places g fs done placed) (hx : x ∈ fs) :
    x ∈ placed ∨ x ∈ done := by
  have hall : ∀ x ∈ fs, x ∈ placed.reverse ++ done := by
    intro x hx
    -- a field that is not a formula reads nothing; heights settle the others
    have hplain : ∀ x ∈ fs, g.isFormula x ≠ true → x ∈ placed.reverse ++ done := by
      intro x hx hplain
      by_contra hnot
      exact h.end x ⟨hx, hnot, fun p _ hread => absurd hread.isFormula hplain⟩
    induction hn : g.height x using Nat.strong_induction_on generalizing x with
    | _ n ih =>
      subst hn
      by_contra hnot
      refine h.end x ⟨hx, hnot, ?_⟩
      intro p hp hread
      by_cases hform : g.isFormula p = true
      · exact ih (g.height p) (height_lt hg hread hform) p hp rfl
      · exact hplain p hp hform
  simpa using hall x hx

theorem Places.mem_iff (hg : g.Acyclic) (h : Places g fs [] placed) : x ∈ placed ↔ x ∈ fs := by
  refine ⟨fun hx => (h.mem_fs hx).1, fun hx => ?_⟩
  simpa using h.mem_or_done hg hx

/-! ## What fields wait for -/

/-- How many of the fields of the set that a field reads are not placed. -/
def missing (g : DependencyGraph) (fs done : List FieldId) (f : FieldId) : Nat :=
  (g.precedentFields f).countP fun p => fs.contains p && !done.contains p

theorem nodup_precedentFields : (g.precedentFields f).Nodup := Ordered.nodup_ofList _

theorem missing_eq_zero : g.missing fs done f = 0 ↔ ∀ p ∈ fs, g.Reads f p → p ∈ done := by
  simp only [missing, List.countP_eq_zero, mem_precedentFields]
  refine forall_congr' fun p => ?_
  by_cases hd : p ∈ done <;> simp [hd, imp.swap]

theorem missing_nil : g.missing fs [] f = g.waitCount fs f := by
  rw [missing, waitCount]
  congr 1
  funext p
  simp

theorem countP_and_ne {q : FieldId → Bool} {xs : List FieldId} (hnodup : xs.Nodup)
    (hp : q p = true) :
    (xs.countP fun x => q x && !decide (x = p)) + (if p ∈ xs then 1 else 0) = xs.countP q := by
  induction xs with
  | nil => simp
  | cons x xs ih =>
    obtain ⟨hx, hxs⟩ := List.nodup_cons.mp hnodup
    have ih := ih hxs
    by_cases hxp : x = p
    · subst hxp
      simp only [hx, if_false, Nat.add_zero] at ih
      simp [hp, ih]
    · have hpx : p ≠ x := fun h => hxp h.symm
      simp only [List.countP_cons, List.mem_cons, hxp, hpx, false_or, decide_false, Bool.not_false,
        Bool.and_true]
      omega

/-- Placing a field leaves one field fewer to wait for to those that read it. -/
theorem missing_cons (hg : g.Mirrored) (hf : f ∈ fs) (hnew : f ∉ done) (x : FieldId) :
    g.missing fs (f :: done) x + (if x ∈ g.dependentFields f then 1 else 0) =
      g.missing fs done x := by
  have hreader : x ∈ g.dependentFields f ↔ f ∈ g.precedentFields x := by
    rw [mem_dependentFields hg, mem_precedentFields]
  have hcount := countP_and_ne (p := f) (q := fun p => fs.contains p && !done.contains p)
    (nodup_precedentFields (g := g) (f := x)) (by simp [hf, hnew])
  rw [missing, missing, ← hcount]
  simp only [hreader]
  congr 2
  funext p
  by_cases hp : p = f <;> simp [hp]

/-! ## Releasing readers -/

section Release

variable {state : Waiting × List FieldId} {r : FieldId} {rs : List FieldId}

theorem get?_release :
    (g.release state r).1.get? x =
      if x = r then (state.1.get? x).map (· - 1) else state.1.get? x := by
  rw [release]
  split
  · rename_i count hcount
    by_cases hx : x = r
    · subst hx
      simp [hcount]
    · simp [hx]
  · rename_i hother
    split
    · rename_i hx
      subst hx
      -- what waits for nothing goes on waiting for nothing
      cases hw : state.1.get? x with
      | none => rfl
      | some count =>
        cases count with
        | zero => rfl
        | succ count => exact absurd hw (hother count)
    · rfl

theorem mem_release :
    x ∈ (g.release state r).2 ↔ x ∈ state.2 ∨ x = r ∧ state.1.get? x = some 1 := by
  rw [release]
  split
  · rename_i count hcount
    by_cases hzero : count = 0
    · subst hzero
      simp only [if_true, Ordered.mem_insert]
      constructor
      · rintro (rfl | hx)
        · exact .inr ⟨rfl, hcount⟩
        · exact .inl hx
      · rintro (hx | ⟨rfl, -⟩)
        · exact .inr hx
        · exact .inl rfl
    · rw [if_neg hzero]
      refine ⟨.inl, ?_⟩
      rintro (hx | ⟨rfl, hone⟩)
      · exact hx
      · rw [hcount, Option.some.injEq] at hone
        omega
  · rename_i hother
    refine ⟨.inl, ?_⟩
    rintro (hx | ⟨rfl, hone⟩)
    · exact hx
    · exact absurd hone (hother 0)

theorem pairwise_release (h : state.2.Pairwise (g.compareFields · · = .lt)) :
    (g.release state r).2.Pairwise (g.compareFields · · = .lt) := by
  rw [release]
  split
  · split
    · exact Ordered.pairwise_insert h
    · exact h
  · exact h

/-- Releasing several readers takes one off the count of each, and makes those ready that waited
for one field only. -/
theorem foldl_release (hnodup : rs.Nodup) (h : state.2.Pairwise (g.compareFields · · = .lt)) :
    (∀ x, (rs.foldl g.release state).1.get? x =
      if x ∈ rs then (state.1.get? x).map (· - 1) else state.1.get? x) ∧
    (∀ x, x ∈ (rs.foldl g.release state).2 ↔ x ∈ state.2 ∨ x ∈ rs ∧ state.1.get? x = some 1) ∧
    (rs.foldl g.release state).2.Pairwise (g.compareFields · · = .lt) := by
  induction rs generalizing state with
  | nil => exact ⟨by simp, by simp, h⟩
  | cons r rs ih =>
    obtain ⟨hr, hrs⟩ := List.nodup_cons.mp hnodup
    obtain ⟨hget, hmem, hsorted⟩ := ih hrs (pairwise_release (r := r) h)
    refine ⟨fun x => ?_, fun x => ?_, hsorted⟩
    · rw [List.foldl_cons, hget, get?_release]
      by_cases hx : x = r
      · subst hx
        simp [hr]
      · simp [hx]
    · rw [List.foldl_cons, hmem, mem_release, get?_release]
      by_cases hx : x = r
      · subst hx
        simp [hr]
      · simp [hx]

end Release

/-! ## The scheduler -/

/-- What holds between two steps of the scheduler. -/
structure Placing (g : DependencyGraph) (fs done : List FieldId) (waiting : Waiting)
    (ready : List FieldId) : Prop where
  nodup : done.Nodup
  subset : ∀ x ∈ done, x ∈ fs
  closed : ∀ x ∈ done, g.missing fs done x = 0
  waits : ∀ x, waiting.get? x = if x ∈ fs then some (g.missing fs done x) else none
  sorted : ready.Pairwise (g.compareFields · · = .lt)
  mem_ready : ∀ x, x ∈ ready ↔ g.Free fs done x

variable {waiting : Waiting}

/-- The next field to place is the first of those that are free. -/
theorem Placing.first (h : Placing g fs done waiting (f :: ready)) (hx : g.Free fs done x) :
    x = f ∨ g.compareFields f x = .lt := by
  rcases List.mem_cons.mp ((h.mem_ready x).mpr hx) with rfl | hx
  · exact .inl rfl
  · exact .inr ((List.pairwise_cons.mp h.sorted).1 x hx)

/-- The next field and those that are placed wait for nothing. -/
theorem Placing.nothing_missing (h : Placing g fs done waiting (f :: ready)) (hx : x ∈ f :: done) :
    g.missing fs done x = 0 := by
  rcases List.mem_cons.mp hx with rfl | hx
  · have hfree : g.Free fs done x := (h.mem_ready x).mp (by simp)
    exact missing_eq_zero.mpr hfree.2.2
  · exact h.closed x hx

/-- Once a field is placed, those are free that were before, and its readers that waited for
nothing else. -/
theorem Placing.free_cons_iff (hg : g.Mirrored) (h : Placing g fs done waiting (f :: ready)) :
    g.Free fs (f :: done) x ↔
      x ∈ ready ∨ x ∈ g.dependentFields f ∧ waiting.get? x = some 1 := by
  obtain ⟨hffs, hfnew, -⟩ : g.Free fs done f := (h.mem_ready f).mp (by simp)
  have hcount := missing_cons hg hffs hfnew x
  rw [h.waits, Free, ← missing_eq_zero]
  constructor
  · rintro ⟨hxfs, hxnew, hzero⟩
    by_cases hr : x ∈ g.dependentFields f
    · rw [if_pos hr] at hcount
      exact .inr ⟨hr, by rw [if_pos hxfs, ← hcount, hzero]⟩
    · -- what does not read the field waits for as much as before
      rw [if_neg hr] at hcount
      have hxdone : x ∉ done := fun hd => hxnew (List.mem_cons_of_mem _ hd)
      have hx : x ∈ f :: ready :=
        (h.mem_ready x).mpr ⟨hxfs, hxdone, missing_eq_zero.mp (by omega)⟩
      rcases List.mem_cons.mp hx with rfl | hx
      · exact absurd (by simp) hxnew
      · exact .inl hx
  · rintro (hx | ⟨hr, hone⟩)
    · obtain ⟨hxfs, hxnew, hxreads⟩ := (h.mem_ready x).mp (List.mem_cons_of_mem _ hx)
      have hzero := missing_eq_zero.mpr hxreads
      have hfnot : f ∉ ready := (List.nodup_cons.mp (Ordered.nodup_of_pairwise_lt h.sorted)).1
      refine ⟨hxfs, ?_, by omega⟩
      intro hxin
      rcases List.mem_cons.mp hxin with rfl | hxin
      · exact hfnot hx
      · exact hxnew hxin
    · split at hone
      · rename_i hxfs
        have hmissing : g.missing fs done x = 1 := Option.some.inj hone
        rw [if_pos hr] at hcount
        refine ⟨hxfs, ?_, by omega⟩
        intro hxin
        have hzero := h.nothing_missing hxin
        omega
      · cases hone

theorem Placing.step (hg : g.Mirrored) (h : Placing g fs done waiting (f :: ready)) :
    Placing g fs (f :: done) ((g.dependentFields f).foldl g.release (waiting, ready)).1
      ((g.dependentFields f).foldl g.release (waiting, ready)).2 := by
  obtain ⟨hffs, hfnew, -⟩ : g.Free fs done f := (h.mem_ready f).mp (by simp)
  have hnodup : (g.dependentFields f).Nodup := Ordered.nodup_ofList _
  have hready : (waiting, ready).2.Pairwise (g.compareFields · · = .lt) :=
    (List.pairwise_cons.mp h.sorted).2
  obtain ⟨hget, hmem, hsorted⟩ := foldl_release hnodup hready
  constructor
  · exact List.nodup_cons.mpr ⟨hfnew, h.nodup⟩
  · intro x hx
    rcases List.mem_cons.mp hx with rfl | hx
    · exact hffs
    · exact h.subset x hx
  · intro x hx
    have hzero := h.nothing_missing hx
    have hcount := missing_cons hg hffs hfnew x
    omega
  · intro x
    -- the counts of the readers have gone down by one, as what they wait for has
    have hcount := missing_cons hg hffs hfnew x
    rw [hget, h.waits]
    by_cases hx : x ∈ fs
    · by_cases hr : x ∈ g.dependentFields f
      · rw [if_pos hr] at hcount
        rw [if_pos hr, if_pos hx, if_pos hx, Option.map_some, ← hcount, Nat.add_sub_cancel]
      · rw [if_neg hr] at hcount
        rw [if_neg hr, if_pos hx, if_pos hx, ← hcount, Nat.add_zero]
    · simp [hx]
  · exact hsorted
  · intro x
    rw [hmem]
    exact (h.free_cons_iff hg).symm

/-- The scheduler places fields as `Places` says, if its limit leaves room for all that are not
placed. -/
theorem Placing.places (hg : g.Mirrored) {limit : Nat} (h : Placing g fs done waiting ready)
    (hlimit : fs.length ≤ limit + done.length) :
    Places g fs done (g.placeReady limit waiting ready).1 := by
  induction limit generalizing done waiting ready with
  | zero =>
    refine .stop fun x hx => ?_
    -- the field would be one more than there are
    have hle : (x :: done).length ≤ fs.length := by
      refine (List.subperm_of_subset (List.nodup_cons.mpr ⟨hx.2.1, h.nodup⟩) ?_).length_le
      intro y hy
      rcases List.mem_cons.mp hy with rfl | hy
      · exact hx.1
      · exact h.subset y hy
    rw [List.length_cons] at hle
    omega
  | succ limit ih =>
    cases ready with
    | nil => exact .stop fun x hx => absurd ((h.mem_ready x).mpr hx) (by simp)
    | cons f ready =>
      refine .place ((h.mem_ready f).mp (by simp)) (fun x hx => h.first hx) ?_
      refine ih (h.step hg) ?_
      simp only [List.length_cons]
      omega

theorem get?_foldl_set {count : FieldId → Nat} {start : Waiting} :
    (fs.foldl (fun waiting f => waiting.set f (count f)) start).get? x =
      if x ∈ fs then some (count x) else start.get? x := by
  induction fs generalizing start with
  | nil => simp
  | cons f fs ih =>
    rw [List.foldl_cons, ih]
    by_cases hx : x ∈ fs
    · simp [hx]
    · by_cases hxf : x = f <;> simp [hx, hxf]

theorem Placing.begin (g : DependencyGraph) (fs : List FieldId) :
    Placing g fs [] (g.initialWaiting fs)
      (g.sorted (fs.filter fun f => (g.initialWaiting fs).get? f = some 0)) where
  nodup := List.nodup_nil
  subset := by simp
  closed := by simp
  waits := by
    intro x
    rw [missing_nil, initialWaiting, get?_foldl_set]
    rfl
  sorted := Ordered.pairwise_ofList _
  mem_ready := by
    intro x
    rw [mem_sorted, List.mem_filter, initialWaiting, get?_foldl_set, Free, ← missing_eq_zero,
      missing_nil]
    by_cases hx : x ∈ fs <;> simp [hx]

/-- Every set of fields has a schedule. -/
theorem schedule_ok (hg : g.Consistent) (fs : List FieldId) :
    ∃ placed, g.schedule fs = .ok placed ∧
      Places g (Ordered.ofList FieldId.compare fs) [] placed := by
  have hplaces := (Placing.begin g (Ordered.ofList FieldId.compare fs)).places hg.mirrored
    (Nat.le_add_right (Ordered.ofList FieldId.compare fs).length _)
  refine ⟨_, ?_, hplaces⟩
  rw [schedule]
  simp only
  rw [if_neg]
  have hnodup : (Ordered.ofList FieldId.compare fs).Nodup := Ordered.nodup_ofList fs
  have hsub := List.subperm_of_subset hnodup fun x hx => (hplaces.mem_iff hg.acyclic).mpr hx
  exact Nat.not_lt.mpr hsub.length_le

theorem schedule_mem (hg : g.Consistent) (h : g.schedule fs = .ok placed) :
    placed.Nodup ∧ (∀ x, x ∈ placed ↔ x ∈ fs) ∧ placed.Pairwise fun a b => ¬ g.Reads a b := by
  obtain ⟨placed', hok, hplaces⟩ := schedule_ok hg fs
  cases hok.symm.trans h
  exact ⟨hplaces.nodup, fun x => (hplaces.mem_iff hg.acyclic).trans Ordered.mem_ofList,
    hplaces.pairwise⟩

end DependencyGraph

/-! ## Orders and chains -/

section Chains

variable {α : Type} [DecidableEq α] {reads : α → α → Prop} {xs : List α}

/-- In a list in which nothing reads what comes later, what is read stands earlier. -/
theorem idxOf_lt_of_reads (hirrefl : ∀ a, ¬ reads a a) (h : xs.Pairwise fun a b => ¬ reads a b)
    {a b : α} (ha : a ∈ xs) (hb : b ∈ xs) (hab : reads a b) : xs.idxOf b < xs.idxOf a := by
  rcases Nat.lt_trichotomy (xs.idxOf a) (xs.idxOf b) with hlt | heq | hgt
  · have hafter := List.pairwise_iff_getElem.mp h _ _ (List.idxOf_lt_length_of_mem ha)
      (List.idxOf_lt_length_of_mem hb) hlt
    rw [List.getElem_idxOf, List.getElem_idxOf] at hafter
    exact absurd hab hafter
  · obtain rfl := (List.idxOf_inj ha).mp heq
    exact absurd hab (hirrefl a)
  · exact hgt

/-- In a list that orders direct reads also whole chains of reads are in order, as long as they
stay within the list. -/
theorem pairwise_transGen (hnodup : xs.Nodup) (hirrefl : ∀ a, ¬ reads a a)
    (h : xs.Pairwise fun a b => ¬ reads a b) (hclosed : ∀ a b, reads a b → b ∈ xs → a ∈ xs) :
    xs.Pairwise fun a b => ¬ TransGen reads a b := by
  -- each read on the chain goes to an earlier place
  have hchain : ∀ a b, TransGen reads a b → b ∈ xs → a ∈ xs ∧ xs.idxOf b < xs.idxOf a := by
    intro a b hab hb
    induction hab using TransGen.head_induction_on with
    | single hab =>
      have ha := hclosed _ _ hab hb
      exact ⟨ha, idxOf_lt_of_reads hirrefl h ha hb hab⟩
    | head hac _ ih =>
      have ha := hclosed _ _ hac ih.1
      exact ⟨ha, ih.2.trans (idxOf_lt_of_reads hirrefl h ha ih.1 hac)⟩
  refine List.pairwise_iff_getElem.mpr ?_
  intro i j hi hj hij hab
  have hlt := (hchain _ _ hab (List.getElem_mem hj)).2
  rw [hnodup.idxOf_getElem, hnodup.idxOf_getElem] at hlt
  omega

end Chains

end ComputedFields
