import ComputedFields.Proofs.Decimal.Precision
import ComputedFields.Proofs.Library.Rounding

/-!
# Totals and extremes of numbers

A total is exact as long as some number denotes each of its partial sums. Otherwise every addition
may be off by a small part of its result, and the parts add up. The extremes of some numbers are
found among them.
-/

namespace ComputedFields.Library

open Decimal (precision precision_pos)
open Value (eq_some_of_orOverflow orOverflow)

variable {ns ns' : List Decimal} {a lo hi n s : Decimal} {steps k : ℕ} {w x : ℚ}
  {kind : ErrorKind}

/-! ## Exact sums -/

/-- The sum of what some numbers denote. -/
def exactSum (ns : List Decimal) : ℚ := (ns.map Decimal.toRat).sum

/-- The sum of their magnitudes. -/
def magnitude (ns : List Decimal) : ℚ := (ns.map fun n => |n.toRat|).sum

theorem exactSum_cons (n : Decimal) (ns : List Decimal) :
    exactSum (n :: ns) = n.toRat + exactSum ns := List.sum_cons

theorem magnitude_cons (n : Decimal) (ns : List Decimal) :
    magnitude (n :: ns) = |n.toRat| + magnitude ns := List.sum_cons

theorem magnitude_nonneg (ns : List Decimal) : 0 ≤ magnitude ns :=
  List.sum_nonneg fun x hx => by
    obtain ⟨n, -, rfl⟩ := List.mem_map.mp hx
    exact abs_nonneg _

theorem abs_exactSum_le (ns : List Decimal) : |exactSum ns| ≤ magnitude ns := by
  induction ns with
  | nil => exact abs_zero.le
  | cons n ns ih =>
    rw [exactSum_cons, magnitude_cons]
    exact (abs_add_le _ _).trans (add_le_add_right ih _)

theorem exactSum_perm (h : ns.Perm ns') : exactSum ns = exactSum ns' := (h.map _).sum_eq

theorem magnitude_perm (h : ns.Perm ns') : magnitude ns = magnitude ns' := (h.map _).sum_eq

theorem magnitude_mono {ps : List Decimal} (h : ps <+: ns) : magnitude ps ≤ magnitude ns := by
  obtain ⟨rest, rfl⟩ := h
  rw [magnitude, magnitude, List.map_append, List.sum_append]
  exact le_add_of_nonneg_right (magnitude_nonneg rest)

/-- Some number denotes each partial sum, from the left. -/
def SumsFit (ns : List Decimal) : Prop :=
  ∀ ps, ps <+: ns → ∃ d : Decimal, d.toRat = exactSum ps

/-- A sum is whole in units of a digit that no summand goes beyond. -/
theorem exists_exactSum_mul (h : ∀ n ∈ ns, n.scale ≤ k) : ∃ z : ℤ, exactSum ns * tenPow k = z := by
  induction ns with
  | nil => exact ⟨0, by simp [exactSum]⟩
  | cons n ns ih =>
    obtain ⟨hn, hns⟩ := List.forall_mem_cons.mp h
    obtain ⟨z, hz⟩ := ih hns
    refine ⟨n.alignedMantissa k + z, ?_⟩
    rw [exactSum_cons, add_mul, Decimal.toRat_mul_tenPow hn, hz, Int.cast_add]

/-- In whatever order they are added, the sums fit if the magnitudes do, in units of a digit that
none of the numbers goes beyond. -/
theorem sumsFit_of_magnitude_lt (hscale : ∀ n ∈ ns, n.scale ≤ k) (hk : k ≤ Decimal.maxScale)
    (h : magnitude ns * tenPow k < Decimal.capacity) : SumsFit ns := by
  intro ps hps
  obtain ⟨z, hz⟩ := exists_exactSum_mul fun n hn => hscale n (hps.subset hn)
  have hpos := Decimal.tenPow_pos_rat k
  have hfits : |(z : ℚ)| < Decimal.capacity := by
    rw [← hz, abs_mul, abs_of_pos hpos]
    refine lt_of_le_of_lt (mul_le_mul_of_nonneg_right ?_ hpos.le) h
    exact (abs_exactSum_le ps).trans (magnitude_mono hps)
  have hfits : z.natAbs < Decimal.capacity := by
    rw [← Int.cast_abs, Int.abs_eq_natAbs] at hfits
    exact_mod_cast hfits
  refine ⟨⟨decide (z < 0), z.natAbs, k, hfits, hk⟩, ?_⟩
  rw [Decimal.toRat_eq_quotient, Decimal.quotient_natAbs, div_eq_iff hpos.ne', hz]

/-! ## What additions lose -/

/-- The part of the magnitudes by which so many additions may be off. -/
def drift (steps : ℕ) : ℚ := (1 + precision) ^ steps - 1

theorem drift_zero : drift 0 = 0 := by rw [drift, pow_zero, sub_self]

theorem drift_succ (steps : ℕ) : drift (steps + 1) = drift steps * (1 + precision) + precision := by
  rw [drift, drift, pow_succ]
  ring

theorem drift_nonneg (steps : ℕ) : 0 ≤ drift steps :=
  sub_nonneg.mpr (one_le_pow₀ (le_add_of_nonneg_right precision_pos.le))

/-- The addition of one more number, to a sum that is already off. -/
theorem error_add (ha : |a.toRat - x| ≤ drift steps * w) (hx : |x| ≤ w) (h : a.add? n = some s) :
    |s.toRat - (x + n.toRat)| ≤ drift (steps + 1) * (w + |n.toRat|) := by
  have hw : 0 ≤ w := (abs_nonneg x).trans hx
  have hsum : |a.toRat + n.toRat| ≤ |a.toRat - x| + (w + |n.toRat|) := by
    calc |a.toRat + n.toRat| = |(a.toRat - x) + (x + n.toRat)| := by ring_nf
      _ ≤ |a.toRat - x| + |x + n.toRat| := abs_add_le _ _
      _ ≤ |a.toRat - x| + (w + |n.toRat|) := by linarith [abs_add_le x n.toRat]
  have hlost := Decimal.add?_error h
  have hpart := mul_le_mul_of_nonneg_left hsum precision_pos.le
  have hgrow : drift steps * w ≤ drift steps * (w + |n.toRat|) :=
    mul_le_mul_of_nonneg_left (le_add_of_nonneg_right (abs_nonneg _)) (drift_nonneg steps)
  have hpositive := precision_pos
  calc |s.toRat - (x + n.toRat)|
      ≤ |s.toRat - (a.toRat + n.toRat)| + |(a.toRat + n.toRat) - (x + n.toRat)| :=
        abs_sub_le _ _ _
    _ = |s.toRat - (a.toRat + n.toRat)| + |a.toRat - x| := by rw [add_sub_add_right_eq_sub]
    _ ≤ (1 + precision) * |a.toRat - x| + precision * (w + |n.toRat|) := by linarith
    _ ≤ (1 + precision) * (drift steps * (w + |n.toRat|)) + precision * (w + |n.toRat|) := by
      gcongr
      exact ha.trans hgrow
    _ = drift (steps + 1) * (w + |n.toRat|) := by
      rw [drift_succ]
      ring

/-- The addition of some numbers, by induction on them: the sum so far is off by the additions that
led to it. -/
theorem error_foldlM (ha : |a.toRat - x| ≤ drift steps * w) (hx : |x| ≤ w)
    (h : ns.foldlM (fun sum n => orOverflow (sum.add? n)) a = .ok s) :
    |s.toRat - (x + exactSum ns)| ≤ drift (steps + ns.length) * (w + magnitude ns) := by
  induction ns generalizing a x w steps with
  | nil =>
    cases h
    simpa [exactSum, magnitude] using ha
  | cons n ns ih =>
    rw [List.foldlM_cons] at h
    obtain ⟨b, hb, h⟩ := ok_of_bind h
    have hstep := error_add ha hx (eq_some_of_orOverflow hb)
    have hbound : |x + n.toRat| ≤ w + |n.toRat| := (abs_add_le _ _).trans (by linarith)
    have hrest := ih hstep hbound h
    rwa [add_assoc x, ← exactSum_cons, add_assoc w, ← magnitude_cons, add_assoc steps,
      add_comm 1] at hrest

theorem foldlM_exact (h : ∀ ps, ps <+: ns → ∃ d : Decimal, d.toRat = a.toRat + exactSum ps) :
    ∃ s, ns.foldlM (fun sum n => orOverflow (sum.add? n)) a = .ok s ∧
      s.toRat = a.toRat + exactSum ns := by
  induction ns generalizing a with
  | nil => exact ⟨a, rfl, (add_zero _).symm⟩
  | cons n ns ih =>
    obtain ⟨d, hd⟩ := h [n] ⟨ns, rfl⟩
    rw [exactSum, List.map_singleton, List.sum_singleton] at hd
    obtain ⟨b, hb, hvalue⟩ := Decimal.add?_exact hd
    obtain ⟨s, hs, hsum⟩ := ih (a := b) fun ps hps => by
      obtain ⟨d, hd⟩ := h (n :: ps) (List.cons_prefix_cons.mpr ⟨rfl, hps⟩)
      exact ⟨d, by rw [hd, hvalue, exactSum_cons, add_assoc]⟩
    refine ⟨s, ?_, by rw [hsum, hvalue, exactSum_cons, add_assoc]⟩
    rw [List.foldlM_cons, hb]
    exact hs

/-- The total of some numbers whose partial sums fit is exact. -/
theorem total_exact (h : SumsFit ns) : ∃ s, total ns = .ok s ∧ s.toRat = exactSum ns := by
  have hfold : ∃ s, total ns = .ok s ∧ s.toRat = Decimal.zero.toRat + exactSum ns :=
    foldlM_exact fun ps hps => by
      rw [Decimal.toRat_zero, zero_add]
      exact h ps hps
  rwa [Decimal.toRat_zero, zero_add] at hfold

/-- Each further number is one addition more. -/
theorem total_error (h : total ns = .ok s) :
    |s.toRat - exactSum ns| ≤ drift (ns.length - 1) * magnitude ns := by
  cases ns with
  | nil =>
    cases h
    simp [Decimal.toRat_zero, exactSum, magnitude]
  | cons n ns =>
    have hfirst : Decimal.zero.add? n = some n := rfl
    rw [total, List.foldlM_cons, hfirst] at h
    have hstart : |n.toRat - n.toRat| ≤ drift 0 * |n.toRat| := by
      rw [sub_self, abs_zero, drift_zero, zero_mul]
    have hrest := error_foldlM hstart le_rfl h
    rwa [zero_add, ← exactSum_cons, ← magnitude_cons] at hrest

/-- Numbers without a total lead out of the numbers. -/
theorem kind_of_foldlM (h : ns.foldlM (fun sum n => orOverflow (sum.add? n)) a = .error kind) :
    kind = .numericOverflow := by
  induction ns generalizing a with
  | nil => cases h
  | cons n ns ih =>
    rw [List.foldlM_cons] at h
    cases hsum : a.add? n with
    | none =>
      rw [hsum] at h
      cases h
      rfl
    | some b =>
      rw [hsum] at h
      exact ih h

/-! ## Extremes -/

/-- Where one of two is picked each time, the one that is left is least by its key. -/
theorem foldl_pick (key : Decimal → ℚ) {pick : Decimal → Decimal → Decimal}
    (hpick : ∀ a b, (pick a b = a ∨ pick a b = b) ∧ key (pick a b) ≤ key a ∧
      key (pick a b) ≤ key b) (n : Decimal) (ns : List Decimal) :
    ns.foldl pick n ∈ n :: ns ∧ ∀ m ∈ n :: ns, key (ns.foldl pick n) ≤ key m := by
  induction ns generalizing n with
  | nil => simp
  | cons n' ns ih =>
    obtain ⟨hmem, hleast⟩ := ih (pick n n')
    obtain ⟨hone, hleft, hright⟩ := hpick n n'
    have hfirst := hleast _ List.mem_cons_self
    rw [List.foldl_cons]
    constructor
    · rcases List.mem_cons.mp hmem with h | h
      · rw [h]
        rcases hone with h' | h' <;> simp [h']
      · exact List.mem_cons_of_mem _ (List.mem_cons_of_mem _ h)
    · simp only [List.forall_mem_cons]
      exact ⟨hfirst.trans hleft, hfirst.trans hright,
        fun m hm => hleast m (List.mem_cons_of_mem _ hm)⟩

theorem lt_iff (m n : Decimal) : m.lt n = true ↔ m.toRat < n.toRat := by
  rw [Decimal.lt, Decimal.compare_eq, beq_iff_eq, compare_lt_iff_lt]

theorem least?_cons (n : Decimal) (ns : List Decimal) : ∃ lo, least? (n :: ns) = some lo ∧
    lo ∈ n :: ns ∧ ∀ m ∈ n :: ns, lo.toRat ≤ m.toRat := by
  refine ⟨_, rfl, foldl_pick Decimal.toRat (fun a b => ?_) n ns⟩
  by_cases h : b.lt a = true
  · rw [if_pos h]
    exact ⟨.inr rfl, ((lt_iff b a).mp h).le, le_rfl⟩
  · rw [if_neg h]
    exact ⟨.inl rfl, le_rfl, not_lt.mp fun hlt => h ((lt_iff b a).mpr hlt)⟩

/-- The greatest number is the one whose negation is least. -/
theorem greatest?_cons (n : Decimal) (ns : List Decimal) : ∃ hi, greatest? (n :: ns) = some hi ∧
    hi ∈ n :: ns ∧ ∀ m ∈ n :: ns, m.toRat ≤ hi.toRat := by
  have hpick (a b : Decimal) : ((if b.lt a then a else b) = a ∨ (if b.lt a then a else b) = b) ∧
      -(if b.lt a then a else b).toRat ≤ -a.toRat ∧
      -(if b.lt a then a else b).toRat ≤ -b.toRat := by
    by_cases h : b.lt a = true
    · rw [if_pos h]
      exact ⟨.inl rfl, le_rfl, neg_le_neg ((lt_iff b a).mp h).le⟩
    · rw [if_neg h]
      exact ⟨.inr rfl, neg_le_neg (not_lt.mp fun hlt => h ((lt_iff b a).mpr hlt)), le_rfl⟩
  obtain ⟨hmem, hleast⟩ := foldl_pick (fun m => -m.toRat) hpick n ns
  exact ⟨_, rfl, hmem, fun m hm => neg_le_neg_iff.mp (hleast m hm)⟩

/-- The sum lies between as many times the extremes. -/
theorem exactSum_between (hlo : ∀ n ∈ ns, x ≤ n.toRat) (hhi : ∀ n ∈ ns, n.toRat ≤ w) :
    ns.length * x ≤ exactSum ns ∧ exactSum ns ≤ ns.length * w := by
  have hlow := List.card_nsmul_le_sum (ns.map Decimal.toRat) x (by simpa using hlo)
  have hhigh := List.sum_le_card_nsmul (ns.map Decimal.toRat) w (by simpa using hhi)
  rw [List.length_map, nsmul_eq_mul] at hlow hhigh
  exact ⟨hlow, hhigh⟩

theorem magnitude_le (h : ∀ n ∈ ns, |n.toRat| ≤ w) : magnitude ns ≤ ns.length * w := by
  have hle := List.sum_le_card_nsmul (ns.map fun n => |n.toRat|) w (by simpa using h)
  rwa [List.length_map, nsmul_eq_mul] at hle

end ComputedFields.Library
