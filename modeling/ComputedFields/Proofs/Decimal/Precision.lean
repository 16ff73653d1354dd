import ComputedFields.Proofs.Decimal.Rational

/-!
# How far rounding goes

Rounding keeps the order: it does not carry a rational number past a number that is denoted. What it
changes is at most one part in `10 ^ 28`, or half a unit of the last digit that a number can have. A
sum of two numbers has no digits after that one, so only the first bound counts for it.
-/

namespace ComputedFields

theorem NearestEven.le_natAbs {x : ℚ} {m : ℤ} {bound : ℕ} (h : NearestEven x m)
    (hx : (bound : ℚ) ≤ |x|) : bound ≤ m.natAbs := by
  have hdist : (bound : ℚ) < |(m : ℚ)| + 1 := by
    calc (bound : ℚ) ≤ |x| := hx
      _ = |x - m + m| := by rw [sub_add_cancel]
      _ ≤ |x - m| + |(m : ℚ)| := abs_add_le _ _
      _ < |(m : ℚ)| + 1 := by linarith [h.1]
  have hdist : (bound : ℤ) < |m| + 1 := by exact_mod_cast hdist
  rw [Int.abs_eq_natAbs] at hdist
  omega

namespace Decimal

variable {a b d : Decimal} {limit scale : ℕ} {m : ℤ} {x y : ℚ}

/-! ## Order -/

theorem RoundedAt.neg (h : RoundedAt limit x y scale m) : RoundedAt limit (-x) (-y) scale (-m) where
  scale_le := h.scale_le
  fits := by
    rw [Int.natAbs_neg]
    exact h.fits
  nearest := by
    rw [neg_mul]
    exact h.nearest.neg
  value := by rw [h.value, Int.cast_neg, neg_div]
  greatest scale' m' hlt hle hnearest := by
    have hback := hnearest.neg
    rw [neg_mul, neg_neg] at hback
    rw [← Int.natAbs_neg]
    exact h.greatest scale' (-m') hlt hle hback

theorem Rounded.neg (h : Rounded x y) : Rounded (-x) (-y) := by
  obtain ⟨scale, m, h⟩ := h
  exact ⟨scale, -m, h.neg⟩

/-- Where one more digit does not fit, the mantissa is a long one. -/
theorem RoundedAt.long (h : RoundedAt maxScale x y scale m) (hlt : scale < maxScale) :
    (capacity : ℚ) - 1 / 2 ≤ |x| * tenPow (scale + 1) := by
  obtain ⟨m', hm'⟩ := exists_nearestEven (x * tenPow (scale + 1))
  have hlong : (capacity : ℚ) ≤ |(m' : ℚ)| := by
    rw [← Int.cast_abs, Int.abs_eq_natAbs]
    exact_mod_cast h.greatest (scale + 1) m' (Nat.lt_succ_self _) hlt hm'
  have hdist := abs_sub_abs_le_abs_sub (m' : ℚ) (x * tenPow (scale + 1))
  rw [abs_sub_comm, abs_mul, abs_of_pos (tenPow_pos_rat _)] at hdist
  linarith [hm'.1]

theorem capacity_le_of_long (h : (capacity : ℚ) - 1 / 2 ≤ |x| * tenPow (scale + 1))
    (hm : NearestEven (x * tenPow scale) m) : capacity ≤ m.natAbs * 10 := by
  have hshort : |x| * tenPow scale ≤ |(m : ℚ)| + 1 / 2 := by
    have hdist := abs_sub_abs_le_abs_sub (x * tenPow scale) m
    rw [abs_mul, abs_of_pos (tenPow_pos_rat _)] at hdist
    linarith [hm.1]
  have hbound : (2 * capacity : ℚ) ≤ 20 * |(m : ℚ)| + 11 := by
    rw [tenPow_succ, Nat.cast_mul] at h
    push_cast at h
    linarith
  have hbound : 2 * (capacity : ℤ) ≤ 20 * |m| + 11 := by exact_mod_cast hbound
  rw [Int.abs_eq_natAbs] at hbound
  simp only [capacity] at hbound ⊢
  omega

/-- Rounding does not fall short of a number that is denoted. -/
theorem Rounded.le_abs (h : Rounded x y) (hx : |d.toRat| ≤ |x|) : |d.toRat| ≤ |y| := by
  obtain ⟨scale, m, h⟩ := h
  have hy : |y| = m.natAbs / tenPow scale := by
    rw [h.value, abs_div, abs_of_pos (tenPow_pos_rat _), ← Int.cast_abs, Int.abs_eq_natAbs,
      Int.cast_natCast]
  rw [hy, abs_toRat, div_le_div_iff₀ (tenPow_pos_rat _) (tenPow_pos_rat _)]
  suffices hscaled : d.mantissa * tenPow scale ≤ m.natAbs * tenPow d.scale by
    exact_mod_cast hscaled
  rcases Nat.lt_or_ge scale d.scale with hlt | hle
  · -- the mantissa is so long that it has more digits than `d`
    have hlong := capacity_le_of_long (h.long (hlt.trans_le d.scale_le)) h.nearest
    obtain ⟨k, hk⟩ := Nat.exists_eq_add_of_lt hlt
    have hlast : tenPow d.scale = tenPow scale * (tenPow k * 10) := by
      rw [hk, tenPow_succ, tenPow_add, Nat.mul_assoc]
    calc d.mantissa * tenPow scale ≤ (m.natAbs * 10) * tenPow scale :=
          Nat.mul_le_mul_right _ (d.mantissa_lt.le.trans hlong)
      _ ≤ (m.natAbs * 10) * tenPow scale * tenPow k := Nat.le_mul_of_pos_right _ (tenPow_pos k)
      _ = m.natAbs * tenPow d.scale := by rw [hlast]; ring
  · have hwhole : ((d.mantissa * tenPow (scale - d.scale) : ℕ) : ℚ) ≤ |x * tenPow scale| := by
      have hd : |d.toRat| * tenPow scale = (d.mantissa * tenPow (scale - d.scale) : ℕ) := by
        rw [abs_toRat, div_mul_eq_mul_div, div_eq_iff (tenPow_pos_rat _).ne']
        exact_mod_cast by rw [mul_assoc, ← tenPow_add, Nat.sub_add_cancel hle]
      rw [abs_mul, abs_of_pos (tenPow_pos_rat scale), ← hd]
      exact mul_le_mul_of_nonneg_right hx (tenPow_pos_rat scale).le
    have hlong := Nat.mul_le_mul_right (tenPow d.scale) (h.nearest.le_natAbs hwhole)
    rwa [Nat.mul_assoc, ← tenPow_add, Nat.sub_add_cancel hle] at hlong

/-- Rounding keeps a rational number above a number that is denoted. -/
theorem Rounded.toRat_le (h : Rounded x y) (hx : d.toRat ≤ x) : d.toRat ≤ y := by
  have hsign (hnonneg : 0 ≤ x) : 0 ≤ y := by
    simpa using h.mul_nonneg (w := 1) (by rwa [mul_one])
  rcases le_total 0 d.toRat with hd | hd
  · have habs := h.le_abs (abs_le_abs_of_nonneg hd hx)
    rwa [abs_of_nonneg hd, abs_of_nonneg (hsign (hd.trans hx))] at habs
  · rcases le_total 0 x with hnonneg | hneg
    · exact hd.trans (hsign hnonneg)
    · have habs := h.abs_le (d := d) (by rw [abs_of_nonpos hneg, abs_of_nonpos hd]; linarith)
      rw [abs_of_nonpos hd] at habs
      linarith [neg_abs_le y]

/-- And below one. -/
theorem Rounded.le_toRat (h : Rounded x y) (hx : x ≤ d.toRat) : y ≤ d.toRat := by
  have hback := h.neg.toRat_le (d := d.neg) (by rwa [toRat_neg, neg_le_neg_iff])
  rwa [toRat_neg, neg_le_neg_iff] at hback

/-- The greatest mantissa. -/
theorem pred_capacity_lt : capacity - 1 < capacity := by decide

/-! ## What is lost -/

/-- The part of a number that rounding may take away or add. -/
def precision : ℚ := 1 / 10 ^ 28

theorem precision_pos : 0 < precision := by norm_num [precision]

/-- Rounding is off by at most half a unit of the last digit that is left. -/
theorem RoundedAt.error_le_half (h : RoundedAt limit x y scale m) :
    |y - x| * tenPow scale ≤ 1 / 2 := by
  have hpos := tenPow_pos_rat scale
  have hmantissa : |y - x| * tenPow scale = |x * tenPow scale - m| := by
    conv_lhs => rw [← abs_of_pos hpos, ← abs_mul, sub_mul, h.value, div_mul_cancel₀ _ hpos.ne',
      abs_sub_comm]
  exact hmantissa.trans_le h.nearest.1

theorem RoundedAt.error_of_lt (h : RoundedAt maxScale x y scale m) (hlt : scale < maxScale) :
    |y - x| ≤ precision * |x| := by
  have hpos := tenPow_pos_rat scale
  have herror := h.error_le_half
  have hlong := h.long hlt
  rw [tenPow_succ, Nat.cast_mul] at hlong
  have hhalf : 1 / 2 ≤ precision * (|x| * tenPow scale) := by
    norm_num [precision, capacity] at hlong ⊢
    linarith
  refine le_of_mul_le_mul_right ?_ hpos
  linarith

/-- Rounding is off by at most a small part, or by half a unit of the last digit. -/
theorem Rounded.error_le (h : Rounded x y) : |y - x| ≤ precision * max |x| 1 := by
  obtain ⟨scale, m, h⟩ := h
  rcases h.scale_le.lt_or_eq with hlt | rfl
  · exact (h.error_of_lt hlt).trans
      (mul_le_mul_of_nonneg_left (le_max_left _ _) precision_pos.le)
  · have herror := h.error_le_half
    have hunit : |y - x| ≤ precision * 1 := by
      rw [tenPow_rat, maxScale] at herror
      norm_num [precision] at herror ⊢
      linarith
    exact hunit.trans (mul_le_mul_of_nonneg_left (le_max_right _ _) precision_pos.le)

/-- A sum is off by at most a small part of it. -/
theorem add?_error (h : a.add? b = some d) :
    |d.toRat - (a.toRat + b.toRat)| ≤ precision * |a.toRat + b.toRat| := by
  obtain ⟨scale, m, h⟩ := rounded_add? h
  rcases h.scale_le.lt_or_eq with hlt | rfl
  · exact h.error_of_lt hlt
  · -- at the greatest scale the sum is whole
    have hwhole : (a.toRat + b.toRat) * tenPow maxScale =
        ((a.alignedMantissa maxScale + b.alignedMantissa maxScale : ℤ) : ℚ) := by
      rw [add_mul, toRat_mul_tenPow a.scale_le, toRat_mul_tenPow b.scale_le, Int.cast_add]
    have hm := NearestEven.eq_of_int (hwhole ▸ h.nearest)
    have hexact : d.toRat = a.toRat + b.toRat := by
      rw [h.value, hm, ← hwhole, mul_div_cancel_right₀ _ (tenPow_pos_rat _).ne']
    rw [hexact, sub_self, abs_zero]
    exact mul_nonneg precision_pos.le (abs_nonneg _)

/-- A sum that some number denotes is found, and it is exact. -/
theorem add?_exact (h : d.toRat = a.toRat + b.toRat) :
    ∃ s, a.add? b = some s ∧ s.toRat = a.toRat + b.toRat := by
  suffices hsome : ∃ s, a.add? b = some s by
    obtain ⟨s, hs⟩ := hsome
    have hrounded := rounded_add? hs
    rw [← h] at hrounded
    exact ⟨s, hs, hrounded.eq_toRat.trans h⟩
  rw [add?]
  split
  · exact ⟨b, rfl⟩
  · split
    · exact ⟨a, rfl⟩
    · refine exists_nearest? _ _ d.mantissa_lt (tenPow_pos _) ?_
      obtain ⟨scale, hscale⟩ : ∃ scale, scale = max a.scale b.scale := ⟨_, rfl⟩
      have hsum : ((a.alignedMantissa scale + b.alignedMantissa scale : ℤ) : ℚ) =
          d.toRat * tenPow scale := by
        rw [h, add_mul, toRat_mul_tenPow (hscale ▸ le_max_left _ _),
          toRat_mul_tenPow (hscale ▸ le_max_right _ _), Int.cast_add]
      have hle : |d.toRat| ≤ d.mantissa := by
        rw [abs_toRat]
        exact div_le_self (Nat.cast_nonneg _) (by exact_mod_cast tenPow_pos d.scale)
      rw [← hscale]
      have hbound : ((a.alignedMantissa scale + b.alignedMantissa scale).natAbs : ℚ) ≤
          d.mantissa * tenPow scale := by
        rw [Nat.cast_natAbs, Int.cast_abs, hsum, abs_mul, abs_of_pos (tenPow_pos_rat _)]
        exact mul_le_mul_of_nonneg_right hle (tenPow_pos_rat _).le
      exact_mod_cast hbound

end Decimal

end ComputedFields
