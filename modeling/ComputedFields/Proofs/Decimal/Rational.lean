import ComputedFields.Proofs.Decimal.Fit
import ComputedFields.Proofs.Decimal.Scale

/-!
# Exact results and their rounding

The rational number that a decimal denotes, and what is made of a rational number that no decimal
denotes: it is rounded, half to even, to as many digits after the point as a mantissa holds. Sums,
products and quotients are the exact ones, rounded once in this way.
-/

namespace ComputedFields

/-! ## The nearest whole number -/

/-- The whole number nearest to `x`, and of two the even one. -/
def NearestEven (x : ℚ) (m : ℤ) : Prop := |x - m| ≤ 1 / 2 ∧ (|x - m| = 1 / 2 → Even m)

/-- Different whole numbers are a whole apart. -/
theorem one_le_apart {m m' : ℤ} (h : m ≠ m') (x : ℚ) : 1 ≤ |x - m| + |x - m'| := by
  have hstep : (1 : ℚ) ≤ |(m : ℚ) - m'| := by
    exact_mod_cast Int.one_le_abs (sub_ne_zero.mpr h)
  calc (1 : ℚ) ≤ |(m : ℚ) - m'| := hstep
    _ ≤ |(m : ℚ) - x| + |x - m'| := abs_sub_le _ _ _
    _ = |x - m| + |x - m'| := by rw [abs_sub_comm]

/-- How far a quotient is from a whole number, as a quotient. -/
theorem abs_div_sub {num den : ℕ} (hden : 0 < den) (q : ℤ) :
    |(num : ℚ) / den - q| = (|num - q * den| : ℤ) / den := by
  have hpos : (0 : ℚ) < den := by exact_mod_cast hden
  rw [div_sub' hpos.ne', abs_div, abs_of_pos hpos, mul_comm (den : ℚ)]
  push_cast
  rfl

namespace NearestEven

variable {x : ℚ} {m m' z : ℤ} {num den : ℕ}

theorem neg (h : NearestEven x m) : NearestEven (-x) (-m) := by
  have hdist : |-x - (-m : ℤ)| = |x - m| := by
    rw [Int.cast_neg, neg_sub_neg, abs_sub_comm]
  rw [NearestEven, hdist]
  exact ⟨h.1, fun htie => (h.2 htie).neg⟩

theorem self (z : ℤ) : NearestEven z z := by
  rw [NearestEven, sub_self, abs_zero]
  norm_num

/-- Of two neighbours that are equally near one is odd. -/
theorem unique (h : NearestEven x m) (h' : NearestEven x m') : m = m' := by
  by_contra hne
  have hapart := one_le_apart hne x
  obtain ⟨k, hk⟩ := h.2 (by linarith [h.1, h'.1])
  obtain ⟨k', hk'⟩ := h'.2 (by linarith [h.1, h'.1])
  have hclose : |(m : ℚ) - m'| ≤ 1 := by
    calc |(m : ℚ) - m'| ≤ |(m : ℚ) - x| + |x - m'| := abs_sub_le _ _ _
      _ ≤ 1 := by
        rw [abs_sub_comm]
        linarith [h.1, h'.1]
  have hclose : |m - m'| ≤ 1 := by exact_mod_cast hclose
  have hbounds := abs_le.mp hclose
  omega

theorem eq_of_int (h : NearestEven z m) : m = z := h.unique (self z)

theorem nonneg (h : NearestEven x m) (hx : 0 ≤ x) : 0 ≤ m := by
  have hlow : (-1 : ℚ) < m := by linarith [(abs_le.mp h.1).2]
  have hlow : -1 < m := by exact_mod_cast hlow
  omega

/-- Rounding does not go beyond a whole number. -/
theorem natAbs_le {bound : ℕ} (h : NearestEven x m) (hx : |x| ≤ bound) : m.natAbs ≤ bound := by
  have hdist : |(m : ℚ)| < bound + 1 := by
    calc |(m : ℚ)| = |x - (x - m)| := by rw [sub_sub_cancel]
      _ ≤ |x| + |x - m| := abs_sub _ _
      _ < bound + 1 := by linarith [h.1]
  have hdist : |m| < bound + 1 := by exact_mod_cast hdist
  have hdist := abs_lt.mp hdist
  omega

/-- Dividing with rounding half to even gives the nearest whole number. -/
theorem roundDiv (num : ℕ) (hden : 0 < den) :
    NearestEven (num / den) (ComputedFields.roundDiv .toEven num den) := by
  have hpos : (0 : ℚ) < den := by exact_mod_cast hden
  have hparts : (num : ℤ) = (num / den : ℕ) * den + (num % den : ℕ) := by
    exact_mod_cast (Nat.div_add_mod' num den).symm
  have hless := Nat.mod_lt num hden
  have hhalf (z : ℤ) : ((z : ℚ) / den ≤ 1 / 2 ↔ 2 * z ≤ den) ∧
      ((z : ℚ) / den = 1 / 2 ↔ 2 * z = den) := by
    rw [div_le_div_iff₀ hpos two_pos, div_eq_div_iff hpos.ne' two_ne_zero, one_mul, mul_comm]
    exact ⟨by exact_mod_cast Iff.rfl, by exact_mod_cast Iff.rfl⟩
  rw [NearestEven, abs_div_sub hden, (hhalf _).1, (hhalf _).2, ComputedFields.roundDiv]
  split
  · rename_i hup
    have hrest : (num : ℤ) - ((num / den + 1 : ℕ) : ℤ) * den = -(den - (num % den : ℕ) : ℤ) := by
      rw [hparts]
      push_cast
      ring
    simp only [Tie.roundsUp, Bool.or_eq_true, decide_eq_true_eq, Bool.and_eq_true,
      beq_iff_eq] at hup
    rw [hrest, abs_neg, abs_of_nonneg (by omega), Int.even_iff]
    omega
  · rename_i hdown
    have hrest : (num : ℤ) - ((num / den : ℕ) : ℤ) * den = (num % den : ℕ) := by
      rw [hparts]
      ring
    simp only [Tie.roundsUp, Bool.or_eq_true, decide_eq_true_eq, Bool.and_eq_true,
      beq_iff_eq] at hdown
    rw [hrest, abs_of_nonneg (by omega), Int.even_iff]
    omega

end NearestEven

theorem exists_nearestEven (x : ℚ) : ∃ m, NearestEven x m := by
  have hround := NearestEven.roundDiv x.num.natAbs x.den_pos
  have hvalue : ((x.num.natAbs : ℕ) : ℚ) / x.den = |x| := by
    rw [Nat.cast_natAbs, ← Rat.num_div_den |x|, Rat.num_abs_eq_abs_num, Rat.den_abs_eq_den]
  rw [hvalue] at hround
  rcases abs_choice x with h | h
  · exact ⟨_, h ▸ hround⟩
  · exact ⟨_, neg_neg x ▸ (h ▸ hround).neg⟩

namespace Decimal

variable {a b d : Decimal} {num den scale limit : ℕ} {negative : Bool} {m k : ℤ} {x y : ℚ}

/-! ## The number that is denoted -/

/-- The quotient of two natural numbers, with or without a minus sign. -/
def quotient (negative : Bool) (num den : ℕ) : ℚ :=
  if negative then -((num : ℚ) / den) else (num : ℚ) / den

theorem abs_quotient (negative : Bool) (num den : ℕ) :
    |quotient negative num den| = (num : ℚ) / den := by
  have hnonneg : (0 : ℚ) ≤ (num : ℚ) / den := by positivity
  cases negative
  · exact abs_of_nonneg hnonneg
  · rw [quotient, if_pos rfl, abs_neg, abs_of_nonneg hnonneg]

/-- Zero has no sign. -/
theorem quotient_sign (negative : Bool) (num den : ℕ) :
    quotient (negative && num != 0) num den = quotient negative num den := by
  cases negative
  · rfl
  · by_cases hzero : num = 0 <;> simp [quotient, hzero]

theorem quotient_mul_one_div (negative : Bool) (num den k : ℕ) :
    quotient negative num (den * k) = quotient negative num den * (1 / k) := by
  have hvalue : (num : ℚ) / (den * k : ℕ) = num / den * (1 / k) := by
    rw [Nat.cast_mul, ← div_div, div_eq_mul_one_div]
  cases negative
  · exact hvalue
  · rw [quotient, quotient, if_pos rfl, if_pos rfl, hvalue, neg_mul]

/-- The rational number that is denoted. -/
def toRat (d : Decimal) : ℚ := d.signed / tenPow d.scale

theorem one_lt_capacity : 1 < capacity := by decide

theorem digits_le_maxScale : 28 ≤ maxScale := le_rfl

theorem tenPow_rat (k : ℕ) : (tenPow k : ℚ) = 10 ^ k := by
  exact_mod_cast (rfl : tenPow k = 10 ^ k)

theorem tenPow_pos_rat (k : ℕ) : (0 : ℚ) < tenPow k := by exact_mod_cast tenPow_pos k

theorem toRat_mul_tenPow (h : d.scale ≤ scale) :
    d.toRat * tenPow scale = d.alignedMantissa scale := by
  have haligned : (d.alignedMantissa scale : ℚ) * tenPow d.scale = d.signed * tenPow scale := by
    exact_mod_cast alignedMantissa_mul h
  rw [toRat, div_mul_eq_mul_div, div_eq_iff (tenPow_pos_rat _).ne', haligned]

theorem toRat_eq_mul_one_div (h : d.scale ≤ scale) :
    d.toRat = d.alignedMantissa scale * (1 / tenPow scale) := by
  rw [mul_one_div, eq_div_iff (tenPow_pos_rat _).ne', toRat_mul_tenPow h]

theorem toRat_mul_tenPow_scale (d : Decimal) : d.toRat * tenPow d.scale = d.signed :=
  div_mul_cancel₀ _ (tenPow_pos_rat _).ne'

theorem toRat_eq_iff : a.toRat = b.toRat ↔ a.sameNumber b = true := by
  rw [sameNumber_iff, toRat, toRat, div_eq_div_iff (tenPow_pos_rat _).ne' (tenPow_pos_rat _).ne']
  exact_mod_cast Iff.rfl

theorem signed_eq_zero : d.signed = 0 ↔ d.mantissa = 0 := by
  rw [← Int.natAbs_eq_zero, natAbs_signed]

theorem toRat_eq_zero : d.toRat = 0 ↔ d.isZero = true := by
  rw [toRat, div_eq_zero_iff, or_iff_left (tenPow_pos_rat _).ne', Int.cast_eq_zero, signed_eq_zero,
    isZero, beq_iff_eq]

/-- The magnitude, with or without a minus sign. -/
theorem toRat_eq_quotient (d : Decimal) :
    d.toRat = quotient d.negative d.mantissa (tenPow d.scale) := by
  rw [toRat, signed, quotient]
  cases d.negative
  · rfl
  · rw [if_pos rfl, if_pos rfl, Int.cast_neg, neg_div]
    rfl

theorem abs_toRat (d : Decimal) : |d.toRat| = (d.mantissa : ℚ) / tenPow d.scale := by
  rw [toRat_eq_quotient, abs_quotient]

theorem toRat_neg (d : Decimal) : d.neg.toRat = -d.toRat := by
  rw [toRat_eq_quotient, toRat_eq_quotient]
  show quotient (!d.negative) d.mantissa (tenPow d.scale) = -quotient d.negative d.mantissa _
  cases d.negative <;> simp [quotient]

theorem toRat_ne_zero (h : d.isZero = false) : d.toRat ≠ 0 := fun hzero => by
  rw [toRat_eq_zero.mp hzero] at h
  cases h

/-- A number with a minus sign is not greater than zero, and one without is not less. -/
theorem toRat_neg_iff (h : d.isZero = false) : d.toRat < 0 ↔ d.negative = true := by
  have hpos : (0 : ℚ) < (d.mantissa : ℚ) / tenPow d.scale := by
    rw [← abs_toRat]
    exact abs_pos.mpr (toRat_ne_zero h)
  rw [toRat_eq_quotient, quotient]
  cases d.negative
  · exact iff_of_false hpos.not_gt Bool.false_ne_true
  · exact iff_of_true (neg_lt_zero.mpr hpos) rfl

/-- A product is less than zero where the signs differ. -/
theorem toRat_mul_toRat_neg_iff (ha : a.isZero = false) (hb : b.isZero = false) :
    a.toRat * b.toRat < 0 ↔ a.negative ≠ b.negative := by
  have hsign {d : Decimal} (h : d.isZero = false) : 0 < d.toRat ↔ d.negative = false := by
    rw [← Bool.not_eq_true, ← toRat_neg_iff h, not_lt, (toRat_ne_zero h).symm.le_iff_lt]
  rw [mul_neg_iff, hsign ha, hsign hb, toRat_neg_iff ha, toRat_neg_iff hb]
  cases a.negative <;> cases b.negative <;> decide

/-! ## Rounding to a number -/

/-- `y` is `x` rounded at a scale, to the mantissa `m`. The scale is the greatest, up to a limit, at
which the rounded mantissa fits. -/
structure RoundedAt (limit : ℕ) (x y : ℚ) (scale : ℕ) (m : ℤ) : Prop where
  scale_le : scale ≤ limit
  fits : m.natAbs < capacity
  nearest : NearestEven (x * tenPow scale) m
  value : y = m / tenPow scale
  greatest : ∀ scale' m', scale < scale' → scale' ≤ limit →
    NearestEven (x * tenPow scale') m' → capacity ≤ m'.natAbs

/-- `y` is `x` rounded, half to even, to as many digits after the point as a mantissa holds. -/
def Rounded (x y : ℚ) : Prop := ∃ scale m, RoundedAt maxScale x y scale m

/-- Nothing is rounded where all digits fit. -/
theorem RoundedAt.exact (h : RoundedAt limit x y scale m) {k : ℕ} {z : ℤ} (hk : k ≤ limit)
    (hx : x * tenPow k = z) (hz : z.natAbs < capacity) : y = x := by
  rcases Nat.lt_or_ge scale k with hlt | hle
  · have hnearest : NearestEven (x * tenPow k) z := hx ▸ .self z
    exact absurd (h.greatest k z hlt hk hnearest) (Nat.not_le.mpr hz)
  · have hwhole : x * tenPow scale = ((z * tenPow (scale - k) : ℤ) : ℚ) := by
      rw [← Nat.add_sub_of_le hle, tenPow_add]
      push_cast
      rw [← mul_assoc, hx, Nat.add_sub_cancel_left]
    have hm := NearestEven.eq_of_int (hwhole ▸ h.nearest)
    rw [h.value, hm, ← hwhole, mul_div_cancel_right₀ _ (tenPow_pos_rat _).ne']

/-- A number that is denoted is not rounded. -/
theorem Rounded.eq_toRat (h : Rounded d.toRat y) : y = d.toRat := by
  obtain ⟨scale, m, h⟩ := h
  refine h.exact d.scale_le (toRat_mul_tenPow_scale d) ?_
  rw [natAbs_signed]
  exact d.mantissa_lt

/-- The rounded mantissa of a quotient, with its sign. -/
def roundedMantissa (negative : Bool) (num den scale : ℕ) : ℤ :=
  if negative then -(roundDiv .toEven (num * tenPow scale) den : ℤ)
  else roundDiv .toEven (num * tenPow scale) den

theorem natAbs_roundedMantissa :
    (roundedMantissa negative num den scale).natAbs =
      roundDiv .toEven (num * tenPow scale) den := by
  rw [roundedMantissa]
  split
  · rw [Int.natAbs_neg, Int.natAbs_natCast]
  · rw [Int.natAbs_natCast]

theorem nearestEven_roundedMantissa (hden : 0 < den) :
    NearestEven (quotient negative num den * tenPow scale)
      (roundedMantissa negative num den scale) := by
  have hround := NearestEven.roundDiv (num * tenPow scale) hden
  rw [Nat.cast_mul, mul_div_right_comm] at hround
  rw [quotient, roundedMantissa]
  cases negative
  · exact hround
  · rw [if_pos rfl, if_pos rfl, neg_mul]
    exact hround.neg

theorem roundedAt_of_fits (hden : 0 < den)
    (hfits : roundDiv .toEven (num * tenPow limit) den < capacity ∧ limit ≤ maxScale)
    (h : nearest? negative num den limit = some d) :
    RoundedAt limit (quotient negative num den) d.toRat limit
      (roundedMantissa negative num den limit) where
  scale_le := Nat.le_refl _
  fits := natAbs_roundedMantissa.trans_lt hfits.1
  nearest := nearestEven_roundedMantissa hden
  value := by
    rw [nearest?_of_fits hfits] at h
    obtain rfl := Option.some.inj h
    rw [toRat_eq_quotient, quotient_sign, quotient, roundedMantissa]
    cases negative
    · rfl
    · rw [if_pos rfl, if_pos rfl, Int.cast_neg, Int.cast_natCast, neg_div]
  greatest scale' m' hlt hle := absurd hle (Nat.not_le.mpr hlt)

/-- A scale at which the rounded mantissa does not fit is passed over. -/
theorem RoundedAt.succ {y : ℚ} (hden : 0 < den)
    (hlong : capacity ≤ roundDiv .toEven (num * tenPow (limit + 1)) den)
    (h : RoundedAt limit (quotient negative num den) y scale m) :
    RoundedAt (limit + 1) (quotient negative num den) y scale m where
  scale_le := Nat.le_succ_of_le h.scale_le
  fits := h.fits
  nearest := h.nearest
  value := h.value
  greatest scale' m' hlt hle hnearest := by
    rcases Nat.le_or_eq_of_le_succ hle with hle | rfl
    · exact h.greatest scale' m' hlt hle hnearest
    · rwa [hnearest.unique (nearestEven_roundedMantissa hden), natAbs_roundedMantissa]

/-- What `nearest?` finds is the quotient rounded. -/
theorem roundedAt_nearest? (hden : 0 < den) (hlimit : limit ≤ maxScale)
    (h : nearest? negative num den limit = some d) :
    ∃ scale m, RoundedAt limit (quotient negative num den) d.toRat scale m := by
  induction limit with
  | zero =>
    by_cases hfits : roundDiv .toEven (num * tenPow 0) den < capacity
    · exact ⟨0, _, roundedAt_of_fits hden ⟨hfits, hlimit⟩ h⟩
    · rw [nearest?.eq_def, dif_neg fun hboth => hfits hboth.1] at h
      cases h
  | succ limit ih =>
    by_cases hfits : roundDiv .toEven (num * tenPow (limit + 1)) den < capacity
    · exact ⟨limit + 1, _, roundedAt_of_fits hden ⟨hfits, hlimit⟩ h⟩
    · rw [nearest?_succ_of_not_fits fun hboth => hfits hboth.1] at h
      obtain ⟨scale, m, hrounded⟩ := ih (Nat.le_of_succ_le hlimit) h
      exact ⟨scale, m, hrounded.succ hden (Nat.le_of_not_lt hfits)⟩

/-- So it is when it starts from any scale that holds all digits of the quotient. -/
theorem rounded_of_sameResult (hden : 0 < den) (hample : Ample num den scale) {z : Option Decimal}
    (hz : SameResult z (nearest? negative num den scale)) (h : z = some d) :
    Rounded (quotient negative num den) d.toRat := by
  have hscale : scale ≤ maxScale := hample.elim Nat.le_of_eq And.left
  have hlast : SameResult (nearest? negative num den maxScale) (nearest? negative num den scale) :=
    nearest?_of_le hden hample hscale le_rfl
  have hsame := hz.trans hlast.symm
  rw [h] at hsame
  cases hfound : nearest? negative num den maxScale with
  | none =>
    rw [hfound] at hsame
    cases hsame
  | some d' =>
    rw [hfound] at hsame
    cases hsame with
    | some hsame =>
      rw [toRat_eq_iff.mpr hsame]
      exact roundedAt_nearest? hden le_rfl hfound

/-- A number that is denoted is itself, rounded. -/
theorem rounded_toRat (d : Decimal) : Rounded d.toRat d.toRat := by
  obtain ⟨d', hd'⟩ := exists_nearest? d.negative maxScale d.mantissa_lt (tenPow_pos d.scale)
    (Nat.le_mul_of_pos_right _ (tenPow_pos d.scale))
  have hrounded : Rounded d.toRat d'.toRat := by
    rw [toRat_eq_quotient]
    exact roundedAt_nearest? (tenPow_pos _) le_rfl hd'
  rwa [hrounded.eq_toRat] at hrounded

/-- A whole number is not rounded. -/
theorem Rounded.eq_of_int {z : ℤ} (h : Rounded z y) : y = z := by
  obtain ⟨scale, m, h⟩ := h
  have hm : m = z * tenPow scale := NearestEven.eq_of_int (by exact_mod_cast h.nearest)
  rw [h.value, hm, Int.cast_mul, Int.cast_natCast, mul_div_cancel_right₀ _ (tenPow_pos_rat _).ne']

/-- Rounding does not go beyond a number that is denoted. -/
theorem Rounded.abs_le (h : Rounded x y) (hx : |x| ≤ |d.toRat|) : |y| ≤ |d.toRat| := by
  obtain ⟨scale, m, h⟩ := h
  have hlonger {k : ℕ} (hle : d.scale ≤ k) :
      |x * tenPow k| ≤ (d.mantissa * tenPow (k - d.scale) : ℕ) := by
    have hd : |d.toRat| * tenPow k = (d.mantissa * tenPow (k - d.scale) : ℕ) := by
      rw [abs_toRat, div_mul_eq_mul_div, div_eq_iff (tenPow_pos_rat _).ne']
      exact_mod_cast by rw [mul_assoc, ← tenPow_add, Nat.sub_add_cancel hle]
    rw [abs_mul, abs_of_pos (tenPow_pos_rat k), ← hd]
    exact mul_le_mul_of_nonneg_right hx (tenPow_pos_rat k).le
  rcases Nat.lt_or_ge scale d.scale with hlt | hle
  · -- all digits of `d` would fit
    obtain ⟨m', hm'⟩ := exists_nearestEven (x * tenPow d.scale)
    have hsmall := hm'.natAbs_le (hlonger le_rfl)
    rw [Nat.sub_self, tenPow_zero, Nat.mul_one] at hsmall
    have hlong := h.greatest d.scale m' hlt d.scale_le hm'
    have := d.mantissa_lt
    omega
  · have hsmall := h.nearest.natAbs_le (hlonger hle)
    rw [h.value, abs_div, abs_of_pos (tenPow_pos_rat _), abs_toRat,
      div_le_div_iff₀ (tenPow_pos_rat _) (tenPow_pos_rat _), ← Int.cast_abs, ← Int.natCast_natAbs]
    have hscaled := Nat.mul_le_mul_right (tenPow d.scale) hsmall
    rw [Nat.mul_assoc, ← tenPow_add, Nat.sub_add_cancel hle] at hscaled
    exact_mod_cast hscaled

/-- Rounding does not change the sign. -/
theorem Rounded.mul_nonneg {w : ℚ} (h : Rounded x y) (hx : 0 ≤ x * w) : 0 ≤ y * w := by
  obtain ⟨scale, m, h⟩ := h
  have hpos := tenPow_pos_rat scale
  rw [h.value]
  rcases lt_trichotomy x 0 with hneg | rfl | hpos'
  · have hw : w ≤ 0 := nonpos_of_mul_nonneg_right hx hneg
    have hm : 0 ≤ -m := h.nearest.neg.nonneg (by nlinarith)
    have hm : (m : ℚ) ≤ 0 := by exact_mod_cast Int.neg_nonneg.mp hm
    exact mul_nonneg_of_nonpos_of_nonpos (div_nonpos_of_nonpos_of_nonneg hm hpos.le) hw
  · have hm : m = 0 := NearestEven.eq_of_int (z := 0) (by simpa using h.nearest)
    simp [hm]
  · have hw : 0 ≤ w := nonneg_of_mul_nonneg_right hx hpos'
    have hm : 0 ≤ m := h.nearest.nonneg (by positivity)
    have hm : (0 : ℚ) ≤ m := by exact_mod_cast hm
    positivity

/-! ## Sums, products and quotients -/

theorem toRat_zero : zero.toRat = 0 := toRat_eq_zero.mpr rfl

theorem toRat_one : one.toRat = 1 := by norm_num [toRat, signed, one, tenPow]

theorem quotient_natAbs (z : ℤ) (den : ℕ) :
    quotient (decide (z < 0)) z.natAbs den = (z : ℚ) / den := by
  rw [quotient, Nat.cast_natAbs]
  split
  · rename_i hneg
    rw [abs_of_neg (of_decide_eq_true hneg), Int.cast_neg, neg_div, neg_neg]
  · rename_i hnonneg
    rw [abs_of_nonneg (Int.not_lt.mp fun h => hnonneg (decide_eq_true h))]

theorem quotient_mul (negative negative' : Bool) (num den num' den' : ℕ) :
    quotient negative num den * quotient negative' num' den' =
      quotient (negative != negative') (num * num') (den * den') := by
  have hvalue : (num : ℚ) / den * (num' / den') = (num * num' : ℕ) / (den * den' : ℕ) := by
    push_cast
    exact div_mul_div_comm _ _ _ _
  cases negative <;> cases negative' <;> simp [quotient, hvalue]

theorem quotient_div (negative negative' : Bool) (num den num' den' : ℕ) :
    quotient negative num den / quotient negative' num' den' =
      quotient (negative != negative') (num * den') (num' * den) := by
  have hvalue : (num : ℚ) / den / (num' / den') = (num * den' : ℕ) / (num' * den : ℕ) := by
    push_cast
    rw [div_div_div_eq, mul_comm (den : ℚ)]
  cases negative <;> cases negative' <;> simp [quotient, neg_div, div_neg, hvalue]

/-- The sum is the exact one, rounded. -/
theorem rounded_add? (h : a.add? b = some d) : Rounded (a.toRat + b.toRat) d.toRat := by
  rw [add?] at h
  split at h
  · rename_i hzero
    obtain rfl := Option.some.inj h
    rw [toRat_eq_zero.mpr hzero, zero_add]
    exact rounded_toRat b
  · split at h
    · rename_i hzero
      obtain rfl := Option.some.inj h
      rw [toRat_eq_zero.mpr hzero, add_zero]
      exact rounded_toRat a
    · obtain ⟨scale, hscale⟩ : ∃ scale, scale = max a.scale b.scale := ⟨_, rfl⟩
      have ha := toRat_mul_tenPow (hscale ▸ le_max_left a.scale b.scale : a.scale ≤ scale)
      have hb := toRat_mul_tenPow (hscale ▸ le_max_right a.scale b.scale : b.scale ≤ scale)
      have hsum : ((a.alignedMantissa scale + b.alignedMantissa scale : ℤ) : ℚ) / tenPow scale =
          a.toRat + b.toRat := by
        rw [div_eq_iff (tenPow_pos_rat _).ne', add_mul, ha, hb, Int.cast_add]
      rw [← hscale] at h
      rw [← hsum, ← quotient_natAbs]
      have hample (num : ℕ) : Ample num (tenPow scale) scale :=
        .inr ⟨hscale ▸ max_le a.scale_le b.scale_le, Nat.dvd_mul_left _ _⟩
      exact rounded_of_sameResult (tenPow_pos _) (hample _) (.refl _) h

/-- The product is the exact one, rounded. -/
theorem rounded_mul? (h : a.mul? b = some d) : Rounded (a.toRat * b.toRat) d.toRat := by
  by_cases hzero : a.isZero || b.isZero
  · rw [mul?, hzero, Bool.true_or, if_pos rfl] at h
    obtain rfl := Option.some.inj h
    have hproduct : a.toRat * b.toRat = zero.toRat := by
      rw [toRat_zero, mul_eq_zero, toRat_eq_zero, toRat_eq_zero]
      simpa using hzero
    rw [hproduct]
    exact rounded_toRat zero
  · rw [Bool.or_eq_true, not_or, Bool.not_eq_true, Bool.not_eq_true] at hzero
    rw [toRat_eq_quotient a, toRat_eq_quotient b, quotient_mul, ← tenPow_add]
    exact rounded_of_sameResult (tenPow_pos _) (ample_mul a b) (mul?_nearest hzero.1 hzero.2) h

/-- The quotient is the exact one, rounded. -/
theorem rounded_div? (h : a.div? b = some d) : Rounded (a.toRat / b.toRat) d.toRat := by
  cases hb : b.isZero with
  | true =>
    rw [div?, hb, if_pos rfl] at h
    cases h
  | false =>
    cases ha : a.isZero with
    | true =>
      rw [div?, hb, ha] at h
      obtain rfl := Option.some.inj h
      have hquotient : a.toRat / b.toRat = zero.toRat := by
        rw [toRat_eq_zero.mpr ha, zero_div, toRat_zero]
      rw [hquotient]
      exact rounded_toRat zero
    | false =>
      have hden : 0 < b.mantissa * tenPow a.scale :=
        Nat.mul_pos (Nat.pos_of_ne_zero (mantissa_ne_zero hb)) (tenPow_pos _)
      rw [toRat_eq_quotient a, toRat_eq_quotient b, quotient_div]
      exact rounded_of_sameResult hden (ample_evenScale a b) (div?_nearest ha hb) h

/-! ## Remainders -/

/-- Numbers are in the order of what they denote. -/
theorem compare_eq (a b : Decimal) : a.compare b = Ord.compare a.toRat b.toRat := by
  have hlt (a b : Decimal) : a.toRat < b.toRat ↔
      a.signed * tenPow b.scale < b.signed * tenPow a.scale := by
    rw [toRat, toRat, div_lt_div_iff₀ (tenPow_pos_rat _) (tenPow_pos_rat _)]
    exact_mod_cast Iff.rfl
  rw [compare]
  rcases lt_trichotomy a.toRat b.toRat with h | h | h
  · rw [compare_lt_iff_lt.mpr h, compare_lt_iff_lt.mpr ((hlt a b).mp h)]
  · rw [compare_eq_iff_eq.mpr h, compare_eq_iff_eq.mpr (sameNumber_iff.mp (toRat_eq_iff.mp h))]
  · rw [compare_gt_iff_gt.mpr h, compare_gt_iff_gt.mpr ((hlt b a).mp h)]

theorem toRat_abs (d : Decimal) : d.abs.toRat = |d.toRat| := by
  rw [abs_toRat]
  rfl

/-- A whole multiple of a magnitude is one of the number itself. -/
theorem exists_mul_of_mul_abs (h : x = k * |y|) : ∃ k : ℤ, x = k * y := by
  rcases abs_choice y with hy | hy
  · exact ⟨k, hy ▸ h⟩
  · exact ⟨-k, by rw [h, hy, Int.cast_neg, mul_neg, neg_mul]⟩

/-- At a greater scale the same number is denoted. -/
theorem toRat_eq_quotient_of_le (h : d.scale ≤ scale) :
    d.toRat = quotient d.negative (d.mantissa * tenPow (scale - d.scale)) (tenPow scale) := by
  have hvalue : (d.mantissa : ℚ) / tenPow d.scale =
      ((d.mantissa * tenPow (scale - d.scale) : ℕ) : ℚ) / tenPow scale := by
    rw [div_eq_div_iff (tenPow_pos_rat _).ne' (tenPow_pos_rat _).ne']
    exact_mod_cast by rw [mul_assoc, ← tenPow_add, Nat.sub_add_cancel h]
  rw [toRat_eq_quotient, quotient, quotient, hvalue]

/-- What a remainder leaves, which has no minus sign where it is zero, is a whole multiple. -/
theorem exists_quotient_sub_mod (negative : Bool) (num num' den : ℕ) : ∃ k : ℤ,
    quotient negative num den - quotient (negative && num % num' != 0) (num % num') den =
      k * ((num' : ℚ) / den) := by
  have hparts : (num : ℚ) = (num / num' : ℕ) * num' + (num % num' : ℕ) := by
    exact_mod_cast (Nat.div_add_mod' num num').symm
  rw [quotient_sign, quotient, quotient, hparts]
  cases negative with
  | false =>
    refine ⟨(num / num' : ℕ), ?_⟩
    rw [if_neg Bool.false_ne_true, if_neg Bool.false_ne_true, Int.cast_natCast]
    ring
  | true =>
    refine ⟨-(num / num' : ℕ), ?_⟩
    rw [if_pos rfl, if_pos rfl, Int.cast_neg, Int.cast_natCast]
    ring

/-- The remainder is less than the divisor, and whole multiples of the divisor away from the
dividend. -/
theorem rem?_spec (hb : b.isZero = false) : ∃ r, a.rem? b = some r ∧
    (∃ k : ℤ, a.toRat - r.toRat = k * b.toRat) ∧ |r.toRat| < |b.toRat| := by
  have hpos : 0 < |b.toRat| := abs_pos.mpr (toRat_ne_zero hb)
  rw [rem?, dif_neg (mantissa_ne_zero hb), compare_eq, toRat_abs, toRat_abs]
  cases ha : a.isZero with
  | true =>
    refine ⟨zero, rfl, ⟨0, ?_⟩, ?_⟩
    · rw [toRat_eq_zero.mpr ha, toRat_zero, sub_zero, Int.cast_zero, zero_mul]
    · rwa [toRat_zero, abs_zero]
  | false =>
    cases hcompare : Ord.compare |a.toRat| |b.toRat| with
    | lt =>
      refine ⟨a, rfl, ⟨0, ?_⟩, compare_lt_iff_lt.mp hcompare⟩
      rw [sub_self, Int.cast_zero, zero_mul]
    | eq =>
      refine ⟨zero, rfl, ?_, by rwa [toRat_zero, abs_zero]⟩
      rw [toRat_zero, sub_zero]
      rcases abs_eq_abs.mp (compare_eq_iff_eq.mp hcompare) with h | h
      · exact ⟨1, by rw [h, Int.cast_one, one_mul]⟩
      · exact ⟨-1, by rw [h, Int.cast_neg, Int.cast_one, neg_one_mul]⟩
    | gt =>
      have hdivisor : |b.toRat| =
          ((b.mantissa * tenPow (max a.scale b.scale - b.scale) : ℕ) : ℚ) /
            tenPow (max a.scale b.scale) := by
        rw [toRat_eq_quotient_of_le (le_max_right a.scale b.scale), abs_quotient]
      have hpositive := Nat.mul_pos (Nat.pos_of_ne_zero (mantissa_ne_zero hb))
        (tenPow_pos (max a.scale b.scale - b.scale))
      obtain ⟨k, hk⟩ := exists_quotient_sub_mod a.negative
        (a.mantissa * tenPow (max a.scale b.scale - a.scale))
        (b.mantissa * tenPow (max a.scale b.scale - b.scale)) (tenPow (max a.scale b.scale))
      refine ⟨_, rfl, exists_mul_of_mul_abs (k := k) ?_, ?_⟩
      · rw [hdivisor, ← hk, toRat_eq_quotient_of_le (le_max_left a.scale b.scale),
          toRat_eq_quotient]
        rfl
      · rw [abs_toRat, hdivisor]
        exact div_lt_div_of_pos_right (by exact_mod_cast Nat.mod_lt _ hpositive) (tenPow_pos_rat _)

end Decimal

end ComputedFields
