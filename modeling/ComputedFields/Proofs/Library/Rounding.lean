import ComputedFields.Library.Numbers
import ComputedFields.Proofs.Decimal.Rational
import ComputedFields.Proofs.Except

/-!
# Rounding to digits

To digits after the point a number is rounded at once, and the result is the nearest multiple of the
last digit's unit, a tie going away from zero. To tens, hundreds and so on the number is divided by
that power first, and the quotient is itself rounded to as many digits as a mantissa holds. A
quotient less than a half can so come out as a half, and is then rounded away from zero; that is
all that the second rounding can do.
-/

namespace ComputedFields

/-- `y` is the multiple of a unit nearest to `x`, and of two the one farther from zero. -/
def RoundsAway (unit x y : ℚ) : Prop :=
  (∃ z : ℤ, y = z * unit) ∧
    ∀ z : ℤ, |x - y| ≤ |x - z * unit| ∧ (|x - z * unit| = |x - y| → |z * unit| ≤ |y|)

/-! ## Nearest multiples -/

namespace RoundsAway

variable {unit x y q s c : ℚ} {m z : ℤ}

/-- A multiple is nearest to itself. -/
theorem self (hx : x = z * unit) : RoundsAway unit x x := by
  refine ⟨⟨z, hx⟩, fun z' => ?_⟩
  rw [sub_self, abs_zero]
  refine ⟨abs_nonneg _, fun h => ?_⟩
  rw [sub_eq_zero.mp (abs_eq_zero.mp h)]

theorem neg (h : RoundsAway unit x y) : RoundsAway unit (-x) (-y) := by
  obtain ⟨⟨z, hz⟩, hnearest⟩ := h
  refine ⟨⟨-z, by rw [hz, Int.cast_neg, neg_mul]⟩, fun z' => ?_⟩
  have hdist : |-x - z' * unit| = |x - (-z' : ℤ) * unit| := by
    rw [← abs_neg, Int.cast_neg]
    ring_nf
  have hsize : |z' * unit| = |(-z' : ℤ) * unit| := by
    rw [Int.cast_neg, neg_mul, abs_neg]
  rw [neg_sub_neg, abs_sub_comm, abs_neg, hdist, hsize]
  exact hnearest (-z')

theorem neg_iff : RoundsAway unit (-x) (-y) ↔ RoundsAway unit x y :=
  ⟨fun h => by simpa only [neg_neg] using h.neg, neg⟩

/-- Multiples of a unit are whole numbers of units. -/
theorem mul_iff (hc : 0 < c) : RoundsAway c (x * c) (y * c) ↔ RoundsAway 1 x y := by
  have hdist (y : ℚ) : |x * c - y * c| = |x - y| * c := by
    rw [← sub_mul, abs_mul, abs_of_pos hc]
  have hsize (y : ℚ) : |y * c| = |y| * c := by rw [abs_mul, abs_of_pos hc]
  simp only [RoundsAway, mul_one, hdist, hsize, mul_le_mul_iff_left₀ hc, mul_left_inj' hc.ne']

/-- Up to a half below a whole number and from there on numbers are rounded to it. -/
theorem of_between (hx : 0 ≤ x) (hlow : x - 1 / 2 < m) (hhigh : m ≤ x + 1 / 2) :
    RoundsAway 1 x m := by
  have hclose : |x - m| ≤ 1 / 2 := abs_le.mpr ⟨by linarith, by linarith⟩
  refine ⟨⟨m, (mul_one _).symm⟩, fun z => ?_⟩
  rw [mul_one]
  by_cases hz : z = m
  · rw [hz]
    exact ⟨le_rfl, fun _ => le_rfl⟩
  · have hapart := one_le_apart (Ne.symm hz) x
    refine ⟨by linarith, fun htie => ?_⟩
    have hhalf : |x - m| = 1 / 2 := by linarith
    have hm : (m : ℚ) = x + 1 / 2 := by
      rcases abs_choice (x - m) with h | h <;> linarith
    calc |(z : ℚ)| = |x - (x - z)| := by rw [sub_sub_cancel]
      _ ≤ |x| + |x - z| := abs_sub _ _
      _ = m := by rw [htie, hhalf, hm, abs_of_nonneg hx]
      _ ≤ |(m : ℚ)| := le_abs_self _

/-- From zero on, half is rounded up. -/
theorem iff_floor (hx : 0 ≤ x) : RoundsAway 1 x y ↔ y = ⌊x + 1 / 2⌋ := by
  have hlow := Int.lt_floor_add_one (x + 1 / 2)
  have hhigh := Int.floor_le (x + 1 / 2)
  have hnonneg : 0 ≤ ⌊x + 1 / 2⌋ := Int.floor_nonneg.mpr (by linarith)
  generalize ⌊x + 1 / 2⌋ = m at hlow hhigh hnonneg
  have hm := of_between hx (by linarith) hhigh
  refine ⟨fun h => ?_, fun h => h ▸ hm⟩
  obtain ⟨⟨z, rfl⟩, hz⟩ := h
  have hz := hz m
  have hm := hm.2 z
  simp only [mul_one] at hz hm ⊢
  have hdist := le_antisymm hz.1 hm.1
  rcases abs_eq_abs.mp (le_antisymm (hm.2 hdist) (hz.2 hdist.symm)) with h | h
  · exact h
  · -- on the other side of zero only zero itself is as near
    have hm0 : (0 : ℚ) ≤ m := by exact_mod_cast hnonneg
    rw [h, sub_neg_eq_add, abs_of_nonneg (add_nonneg hx hm0)] at hdist
    have hless : (m : ℚ) < 1 := by rcases abs_choice (x - m) with h' | h' <;> linarith
    have hzero : m = 0 := by
      have hless : m < 1 := by exact_mod_cast hless
      omega
    rw [h, hzero, Int.cast_zero, neg_zero]

end RoundsAway

/-- Short of half a unit, by no more than half of the last digit that a quotient can have. -/
def JustBelowHalf (unit x : ℚ) : Prop :=
  unit * (1 / 2 - 1 / (2 * 10 ^ 28)) ≤ |x| ∧ |x| < unit / 2

section

variable {x y q c : ℚ} {m : ℤ}

theorem justBelowHalf_mul_iff (hc : 0 < c) : JustBelowHalf c (x * c) ↔ JustBelowHalf 1 x := by
  rw [JustBelowHalf, JustBelowHalf, abs_mul, abs_of_pos hc, one_mul, mul_comm c (_ - _),
    mul_le_mul_iff_left₀ hc, ← one_div_mul_eq_div 2 c, mul_lt_mul_iff_left₀ hc]

theorem floor_add_half (hx : 0 ≤ x) (hx' : x ≤ 1) : ⌊x + 1 / 2⌋ = if 1 / 2 ≤ x then 1 else 0 := by
  split
  · refine Int.floor_eq_iff.mpr ⟨?_, ?_⟩ <;> push_cast <;> linarith
  · refine Int.floor_eq_iff.mpr ⟨?_, ?_⟩ <;> push_cast <;> linarith

/-- A half has an even last digit, so a quotient half a digit below it is rounded to it. -/
theorem half_le_iff (hm : NearestEven (q * 10 ^ 28) m) :
    (1 : ℚ) / 2 ≤ m / 10 ^ 28 ↔ 1 / 2 - 1 / (2 * 10 ^ 28) ≤ q := by
  have hclose := abs_le.mp hm.1
  rw [le_div_iff₀ (by norm_num)]
  constructor
  · intro h
    linarith
  · intro h
    by_contra hless
    have hupper : (m : ℚ) ≤ 5 * 10 ^ 27 - 1 := by
      have hless : (m : ℚ) < (5 * 10 ^ 27 : ℤ) := by
        push_cast
        linarith
      have hless : m < 5 * 10 ^ 27 := by exact_mod_cast hless
      exact_mod_cast Int.le_sub_one_of_lt hless
    have hm' : (m : ℚ) = (5 * 10 ^ 27 - 1 : ℤ) := by
      push_cast
      linarith
    obtain ⟨k, hk⟩ := hm.2 (by rw [hm', abs_of_nonneg] <;> push_cast at hm' ⊢ <;> linarith)
    have hm' : m = 5 * 10 ^ 27 - 1 := by exact_mod_cast hm'
    omega

/-- Rounding a small quotient to its last digit and then to a whole number. -/
theorem roundsAway_rounded (hm : NearestEven (q * 10 ^ 28) m) (hq : |q| < 4 / 5)
    (hy : RoundsAway 1 (m / 10 ^ 28) y) : RoundsAway 1 q y ↔ ¬ JustBelowHalf 1 q := by
  wlog hsign : 0 ≤ q generalizing q m y
  · have hneg : NearestEven (-q * 10 ^ 28) (-m) := by
      rw [neg_mul]
      exact hm.neg
    have hy' : RoundsAway 1 ((-m : ℤ) / 10 ^ 28) (-y) := by
      rw [Int.cast_neg, neg_div]
      exact hy.neg
    have hiff := this hneg (by rwa [abs_neg]) hy' (by linarith)
    rwa [RoundsAway.neg_iff, JustBelowHalf, abs_neg] at hiff
  rw [abs_of_nonneg hsign] at hq
  have hm0 : (0 : ℚ) ≤ m := by
    exact_mod_cast hm.nonneg (mul_nonneg hsign (by norm_num))
  have hm1 : (m : ℚ) ≤ 10 ^ 28 := by linarith [(abs_le.mp hm.1).1]
  have hnonneg : (0 : ℚ) ≤ m / 10 ^ 28 := by positivity
  have hle : (m : ℚ) / 10 ^ 28 ≤ 1 := (div_le_one (by norm_num)).mpr hm1
  rw [RoundsAway.iff_floor hsign, (RoundsAway.iff_floor hnonneg).mp hy, Int.cast_inj,
    floor_add_half hnonneg hle, floor_add_half hsign (by linarith), JustBelowHalf,
    abs_of_nonneg hsign, one_mul, ← half_le_iff hm]
  have hhalf : 1 / 2 ≤ q → (1 : ℚ) / 2 ≤ m / 10 ^ 28 := fun h => (half_le_iff hm).mpr (by linarith)
  rw [not_and, not_lt]
  split_ifs with hup hup' hup'
  · exact iff_of_true rfl fun _ => hup'
  · exact iff_of_false one_ne_zero fun h => hup' (h hup)
  · exact absurd (hhalf hup') hup
  · exact iff_of_true rfl fun h => absurd h hup

end

/-! ## Rounding decimals -/

namespace Decimal

variable {n : Decimal} {power : ℕ} {x y : ℚ}

/-- Division with half rounded away from zero gives the nearest whole number. -/
theorem roundsAway_quotient (negative : Bool) (num : ℕ) {den : ℕ} (hden : 0 < den) :
    RoundsAway 1 (quotient negative num den)
      (quotient negative (roundDiv .awayFromZero num den) 1) := by
  have hpos : (0 : ℚ) < den := by exact_mod_cast hden
  have hparts := Nat.div_add_mod' num den
  have hless := Nat.mod_lt num hden
  have hbounds : 2 * num < 2 * (roundDiv .awayFromZero num den * den) + den ∧
      2 * (roundDiv .awayFromZero num den * den) ≤ 2 * num + den := by
    rw [roundDiv]
    split
    · rename_i hup
      have hup : den ≤ 2 * (num % den) := of_decide_eq_true hup
      rw [Nat.succ_mul (num / den)]
      omega
    · rename_i hdown
      have hdown : ¬ den ≤ 2 * (num % den) := fun h => hdown (decide_eq_true h)
      omega
  have hlow : 2 * (num : ℚ) < 2 * (roundDiv .awayFromZero num den * den) + den := by
    exact_mod_cast hbounds.1
  have hhigh : 2 * ((roundDiv .awayFromZero num den : ℚ) * den) ≤ 2 * num + den := by
    exact_mod_cast hbounds.2
  have hround : RoundsAway 1 ((num : ℚ) / den) (roundDiv .awayFromZero num den : ℤ) := by
    refine RoundsAway.of_between (by positivity) ?_ ?_
    · rw [sub_lt_iff_lt_add, div_lt_iff₀ hpos, Int.cast_natCast]
      linarith
    · rw [← sub_le_iff_le_add, le_div_iff₀ hpos, Int.cast_natCast]
      linarith
  rw [quotient, quotient, Nat.cast_one, div_one]
  cases negative
  · exact hround
  · exact hround.neg

/-- A number is rounded to the nearest multiple of the last digit's unit. -/
theorem roundsAway_round (d : Decimal) {places : ℕ} (h : places ≤ maxScale) :
    RoundsAway (1 / tenPow places) d.toRat (d.round places h).toRat := by
  rw [Decimal.round]
  split
  · rename_i hscale
    exact RoundsAway.self (toRat_eq_mul_one_div hscale)
  · rename_i hscale
    have hvalue : d.toRat = quotient d.negative d.mantissa (tenPow (d.scale - places)) *
        (1 / tenPow places) := by
      rw [← quotient_mul_one_div, ← tenPow_add, Nat.sub_add_cancel (Nat.le_of_not_le hscale),
        toRat_eq_quotient]
    have hresult (num : ℕ) : quotient d.negative num (tenPow places) =
        quotient d.negative num 1 * (1 / tenPow places) := by
      rw [← quotient_mul_one_div, Nat.one_mul]
    have hwhole := roundsAway_quotient d.negative d.mantissa (tenPow_pos (d.scale - places))
    rw [hvalue, toRat_eq_quotient, quotient_sign, hresult]
    exact (RoundsAway.mul_iff (one_div_pos.mpr (tenPow_pos_rat places))).mpr hwhole

/-- A quotient less than one is rounded at the greatest scale. -/
theorem Rounded.of_small (h : Rounded x y) (hx : |x| < 4 / 5) :
    ∃ m, NearestEven (x * 10 ^ 28) m ∧ y = m / 10 ^ 28 := by
  obtain ⟨scale, m, h⟩ := h
  have htenPow : (tenPow maxScale : ℚ) = 10 ^ 28 := tenPow_rat maxScale
  rcases h.scale_le.eq_or_lt with rfl | hlt
  · exact ⟨m, htenPow ▸ h.nearest, htenPow ▸ h.value⟩
  · obtain ⟨m', hm'⟩ := exists_nearestEven (x * tenPow maxScale)
    have hsmall : |x * tenPow maxScale| ≤ (8 * 10 ^ 27 : ℕ) := by
      rw [htenPow, abs_mul, abs_of_pos (by norm_num : (0 : ℚ) < 10 ^ 28)]
      push_cast
      linarith
    have hlong := h.greatest maxScale m' hlt le_rfl hm'
    exact absurd (hlong.trans (hm'.natAbs_le hsmall)) (by decide)

/-- A greater one has few enough digits not to be rounded at all. -/
theorem Rounded.of_large (h : Rounded (n.toRat / tenPow power) x)
    (hlarge : 4 / 5 ≤ |n.toRat / tenPow power|) : x = n.toRat / tenPow power := by
  have hpos := tenPow_pos_rat power
  have hmantissa := n.mantissa_lt
  have hscale : n.scale + power ≤ maxScale := by
    by_contra hlong
    have hdigits : tenPow 29 ≤ tenPow (n.scale + power) :=
      Nat.pow_le_pow_right (by decide) (Nat.lt_of_not_le hlong)
    rw [abs_div, abs_toRat, abs_of_pos hpos, div_div, ← Nat.cast_mul, ← tenPow_add,
      div_le_div_iff₀ (by norm_num) (tenPow_pos_rat _)] at hlarge
    have hlarge : 4 * tenPow (n.scale + power) ≤ n.mantissa * 5 := by exact_mod_cast hlarge
    have hcapacity : capacity * 5 ≤ 4 * tenPow 29 := by decide
    omega
  obtain ⟨scale, m, h⟩ := h
  refine h.exact (z := n.signed) hscale ?_ (by rwa [natAbs_signed])
  rw [tenPow_add, Nat.cast_mul, mul_comm (tenPow n.scale : ℚ), ← mul_assoc,
    div_mul_cancel₀ _ hpos.ne', toRat_mul_tenPow_scale]

end Decimal

theorem Value.eq_some_of_orOverflow {α : Type} {x : Option α} {a : α}
    (h : Value.orOverflow x = .ok a) : x = some a := by
  cases x with
  | none => cases h
  | some a' =>
    cases h
    rfl

/-! ## The function -/

namespace Library

open Decimal
open Value (eq_some_of_orOverflow)

variable {n r : Decimal} {a b : Value} {power : ℕ} {digits : ℤ}

theorem roundsAway_roundDigits {digits : ℕ} (h : roundDigits n digits = .ok r) :
    RoundsAway (1 / tenPow digits) n.toRat r.toRat := by
  rw [roundDigits] at h
  split at h
  · cases h
  · cases h
    rcases Nat.le_total digits maxScale with hdigits | hdigits
    · have hround := roundsAway_round n hdigits
      simpa only [Nat.min_eq_left hdigits] using hround
    · -- no number has digits to round away
      have hscale : n.scale ≤ min digits maxScale := le_min (n.scale_le.trans hdigits) n.scale_le
      rw [Decimal.round, dif_pos hscale]
      exact RoundsAway.self (toRat_eq_mul_one_div (n.scale_le.trans hdigits))

theorem toRat_ten : ten.toRat = 10 := by norm_num [toRat, signed, ten, tenPow]

theorem toRat_of_powerOfTen {factor : Decimal} (h : powerOfTen power = .ok factor) :
    factor.toRat = tenPow power := by
  induction power generalizing factor with
  | zero =>
    cases h
    rw [toRat_one, tenPow_zero, Nat.cast_one]
  | succ power ih =>
    obtain ⟨p, hp, h⟩ := ok_of_bind h
    have hrounded := rounded_mul? (eq_some_of_orOverflow h)
    rw [ih hp, toRat_ten, ← Nat.cast_ofNat, ← Nat.cast_mul, ← tenPow_succ,
      ← Int.cast_natCast] at hrounded
    exact_mod_cast hrounded.eq_of_int

/-- The powers of ten that are numbers end at the greatest scale. -/
theorem power_le_of_powerOfTen {factor : Decimal} (h : powerOfTen (min power 29) = .ok factor) :
    power ≤ 28 := by
  by_contra hlong
  rw [Nat.min_eq_right (by omega)] at h
  have hoverflow : powerOfTen 29 = .error .numericOverflow := by cbv
  rw [hoverflow] at h
  cases h

/-- A number is rounded to the nearest multiple of a power of ten, but for one just short of half
of it. -/
theorem roundsAway_roundPower (h : roundPower n power = .ok r) :
    RoundsAway (tenPow power) n.toRat r.toRat ↔ ¬ JustBelowHalf (tenPow power) n.toRat := by
  obtain ⟨factor, hfactor, h⟩ := ok_of_bind h
  obtain ⟨scaled, hscaled, h⟩ := ok_of_bind h
  have hpower := power_le_of_powerOfTen hfactor
  rw [Nat.min_eq_left (by omega)] at hfactor
  have hpos := tenPow_pos_rat power
  have hquotient : Rounded (n.toRat / tenPow power) scaled.toRat := by
    rw [← toRat_of_powerOfTen hfactor]
    exact rounded_div? (eq_some_of_orOverflow hscaled)
  have hwhole := roundsAway_round scaled (Nat.zero_le maxScale)
  rw [tenPow_zero, Nat.cast_one, div_one] at hwhole
  have hproduct : r.toRat = (scaled.round 0 (Nat.zero_le _)).toRat * tenPow power := by
    obtain ⟨z, hz⟩ := hwhole.1
    have hrounded := rounded_mul? (eq_some_of_orOverflow h)
    rw [toRat_of_powerOfTen hfactor, hz, mul_one] at hrounded
    rw [hz, mul_one]
    exact_mod_cast Rounded.eq_of_int (z := z * tenPow power) (by exact_mod_cast hrounded)
  have hlarge := hquotient.of_large
  rw [hproduct, ← div_mul_cancel₀ n.toRat hpos.ne', justBelowHalf_mul_iff hpos,
    RoundsAway.mul_iff hpos]
  generalize n.toRat / tenPow power = q at hquotient hlarge
  rcases lt_or_ge |q| (4 / 5) with hq | hq
  · obtain ⟨m, hm, hscaled⟩ := hquotient.of_small hq
    exact roundsAway_rounded hm hq (hscaled ▸ hwhole)
  · have hexact : RoundsAway 1 q (scaled.round 0 (Nat.zero_le _)).toRat := hlarge hq ▸ hwhole
    exact iff_of_true hexact fun h => by linarith [h.2]

/-- A number is rounded to the nearest multiple of the last digit's unit, half away from zero, but
for a number that is to be rounded to tens, hundreds and so on and is just short of half of that
power. -/
theorem round_nearest (hn : a.toNumber = .ok n) (hdigits : b.toInteger = .ok digits)
    (h : round [a, b] = .ok (.number r)) :
    RoundsAway (10 ^ (-digits)) n.toRat r.toRat ↔
      ¬ (digits < 0 ∧ JustBelowHalf (10 ^ (-digits)) n.toRat) := by
  have hround : roundTo n digits = .ok (.number r) := by
    rw [← h, round, hn, hdigits]
    rfl
  rw [roundTo] at hround
  split at hround
  · rename_i hpositive
    obtain ⟨places, rfl⟩ := Int.eq_ofNat_of_zero_le hpositive
    obtain ⟨r', hr', hvalue⟩ := ok_of_map hround
    cases hvalue
    have hunit : (10 : ℚ) ^ (-(places : ℤ)) = 1 / tenPow places := by
      rw [zpow_neg, zpow_natCast, tenPow_rat, one_div]
    rw [hunit]
    exact iff_of_true (roundsAway_roundDigits hr') fun hneg => by omega
  · rename_i hnegative
    obtain ⟨power, rfl⟩ : ∃ power : ℕ, digits = -power := ⟨digits.natAbs, by omega⟩
    obtain ⟨r', hr', hvalue⟩ := ok_of_map hround
    cases hvalue
    have hunit : (10 : ℚ) ^ (-(-(power : ℤ))) = tenPow power := by
      rw [neg_neg, zpow_natCast, tenPow_rat]
    rw [Int.natAbs_neg, Int.natAbs_natCast] at hr'
    rw [hunit, and_iff_right (by omega)]
    exact roundsAway_roundPower hr'

/-- Five, but for the last of the digits after the point. -/
def justBelowFive : Decimal :=
  ⟨false, 49999999999999999999999999999, 28, by decide, digits_le_maxScale⟩

/-- It is rounded up to ten, and zero is nearer. -/
theorem round_justBelowFive :
    round [.number justBelowFive, .number Decimal.one.neg] = .ok (.number ten) ∧
      ¬ RoundsAway (10 ^ (-(-1 : ℤ))) justBelowFive.toRat ten.toRat := by
  have hround : round [.number justBelowFive, .number Decimal.one.neg] = .ok (.number ten) := by
    decide +kernel
  have hvalue : |justBelowFive.toRat| = 49999999999999999999999999999 / 10 ^ 28 := by
    rw [abs_toRat, ← tenPow_rat]
    norm_num [justBelowFive]
  have hshort : JustBelowHalf (10 ^ (-(-1 : ℤ))) justBelowFive.toRat := by
    rw [JustBelowHalf, hvalue]
    norm_num
  exact ⟨hround, fun h => (round_nearest rfl rfl hround).mp h ⟨by decide, hshort⟩⟩

end Library

end ComputedFields
