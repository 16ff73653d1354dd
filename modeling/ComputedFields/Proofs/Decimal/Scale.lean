import ComputedFields.Decimal.Arithmetic
import ComputedFields.Proofs.Decimal.Rounding

/-!
# Calculation without regard to scale

How many digits after the point a number is written with makes no difference to a calculation with
it: every operation gives the same number for operands that denote the same numbers, or fails for
all of them. The scale of a result follows the scales of the operands, but if it is not the
greatest one it holds all digits of the exact result.
-/

namespace ComputedFields.Decimal

variable {a b a' b' d d' : Decimal} {num den : Nat} {negative : Bool} {scale scale' : Nat}

/-! ## Order and sign -/

/-- A greater scale than its own gives a number a longer mantissa, not another value. -/
theorem alignedMantissa_mul (h : d.scale ≤ scale) :
    d.alignedMantissa scale * tenPow d.scale = d.signed * tenPow scale := by
  rw [alignedMantissa, mul_assoc, ← Nat.cast_mul, ← tenPow_add, Nat.sub_add_cancel h]

theorem alignedMantissa_congr (h : d.sameNumber d' = true) (hle : d.scale ≤ scale)
    (hle' : d'.scale ≤ scale') :
    d.alignedMantissa scale * tenPow scale' = d'.alignedMantissa scale' * tenPow scale := by
  have hsame := sameNumber_iff.mp h
  have hd := alignedMantissa_mul hle
  have hd' := alignedMantissa_mul hle'
  have hpos : (tenPow d.scale * tenPow d'.scale : Int) ≠ 0 := by
    exact_mod_cast (Nat.mul_pos (tenPow_pos d.scale) (tenPow_pos d'.scale)).ne'
  refine mul_right_cancel₀ hpos ?_
  linear_combination (tenPow scale' * tenPow d'.scale : Int) * hd -
    (tenPow scale * tenPow d.scale : Int) * hd' + (tenPow scale * tenPow scale' : Int) * hsame

theorem compare_mul {x y : Int} {k : Nat} (hk : 0 < k) :
    Ord.compare (x * k) (y * k) = Ord.compare x y := by
  have hpos : (0 : Int) < k := by exact_mod_cast hk
  rcases lt_trichotomy x y with h | rfl | h
  · rw [compare_lt_iff_lt.mpr h, compare_lt_iff_lt.mpr (by nlinarith)]
  · simp
  · rw [compare_gt_iff_gt.mpr h, compare_gt_iff_gt.mpr (by nlinarith)]

theorem compare_congr (ha : a.sameNumber a' = true) (hb : b.sameNumber b' = true) :
    a.compare b = a'.compare b' := by
  have hka := sameNumber_iff.mp ha
  have hkb := sameNumber_iff.mp hb
  have hpos (m n : Nat) : 0 < tenPow m * tenPow n := Nat.mul_pos (tenPow_pos m) (tenPow_pos n)
  rw [compare, compare, ← compare_mul (hpos a'.scale b'.scale),
    ← compare_mul (x := a'.signed * _) (hpos a.scale b.scale)]
  push_cast
  congr 1
  · linear_combination (tenPow b.scale * tenPow b'.scale : Int) * hka
  · linear_combination (tenPow a.scale * tenPow a'.scale : Int) * hkb

theorem lt_congr (ha : a.sameNumber a' = true) (hb : b.sameNumber b' = true) :
    a.lt b = a'.lt b' := by
  rw [lt, lt, compare_congr ha hb]

theorem sameNumber_congr (ha : a.sameNumber a' = true) (hb : b.sameNumber b' = true) :
    a.sameNumber b = a'.sameNumber b' := by
  rw [Bool.eq_iff_iff]
  exact ⟨fun h => sameNumber_trans (sameNumber_symm ha) (sameNumber_trans h hb),
    fun h => sameNumber_trans ha (sameNumber_trans h (sameNumber_symm hb))⟩

theorem sameNumber_neg (h : d.sameNumber d' = true) : d.neg.sameNumber d'.neg = true := by
  have hmantissa := mantissa_of_sameNumber h
  exact sameNumber_of_mantissa hmantissa fun hne => congrArg (!·) (negative_of_sameNumber h hne)

theorem sameNumber_abs (h : d.sameNumber d' = true) : d.abs.sameNumber d'.abs = true := by
  have hmantissa := mantissa_of_sameNumber h
  exact sameNumber_of_mantissa hmantissa fun _ => rfl

/-! ## Sums and products -/

theorem add?_same (ha : a.sameNumber a' = true) (hb : b.sameNumber b' = true) :
    SameResult (a.add? b) (a'.add? b') := by
  rw [add?, add?, ← isZero_congr ha, ← isZero_congr hb]
  by_cases hza : a.isZero = true
  · rw [if_pos hza, if_pos hza]
    exact .some hb
  by_cases hzb : b.isZero = true
  · rw [if_neg hza, if_neg hza, if_pos hzb, if_pos hzb]
    exact .some ha
  simp only [hza, hzb, Bool.false_eq_true, if_false]
  -- both exact sums are brought to the product of both powers
  have hleft := alignedMantissa_congr ha (le_max_left a.scale b.scale)
    (le_max_left a'.scale b'.scale)
  have hright := alignedMantissa_congr hb (le_max_right a.scale b.scale)
    (le_max_right a'.scale b'.scale)
  have hscale (a b : Decimal) (num : Nat) :
      Ample num (tenPow (max a.scale b.scale)) (max a.scale b.scale) :=
    .inr ⟨max_le a.scale_le b.scale_le, Nat.dvd_mul_left _ _⟩
  refine nearest?_same (tenPow_pos _) (tenPow_pos _) ?_ (fun _ => ?_) (hscale a b _)
    (hscale a' b' _)
  · have hsum := congrArg Int.natAbs (congrArg₂ (· + ·) hleft hright)
    simpa only [← Int.add_mul, Int.natAbs_mul, Int.natAbs_natCast] using hsum
  · have hneg (x : Int) (scale : Nat) : x * tenPow scale < 0 ↔ x < 0 := by
      have hpos : (0 : Int) < tenPow scale := by exact_mod_cast tenPow_pos scale
      exact ⟨fun h => neg_of_mul_neg_left h hpos.le, fun h => mul_neg_of_neg_of_pos h hpos⟩
    rw [decide_eq_decide, ← hneg _ (max a'.scale b'.scale), Int.add_mul, hleft, hright,
      ← Int.add_mul, hneg]

theorem sub?_same (ha : a.sameNumber a' = true) (hb : b.sameNumber b' = true) :
    SameResult (a.sub? b) (a'.sub? b') := by
  rw [sub?, sub?, ← isZero_congr hb]
  refine add?_same ha ?_
  split
  · exact hb
  · exact sameNumber_neg hb

/-- A product that vanishes would be rounded to zero. -/
theorem nearest?_of_small (h : 2 * (num * tenPow maxScale) < den) :
    SameResult (nearest? negative num den maxScale) (some zero) := by
  have hround : roundDiv .toEven (num * tenPow maxScale) den = 0 := by
    have hlt : num * tenPow maxScale < den := by omega
    have hdown : Tie.toEven.roundsUp 0 (num * tenPow maxScale) den = false := by
      simp [Tie.roundsUp, h.le]
    rw [roundDiv, Nat.div_eq_of_lt hlt, Nat.mod_eq_of_lt hlt, hdown]
    rfl
  rw [nearest?_of_fits ⟨by rw [hround]; exact capacity_pos, le_rfl⟩]
  refine .some (sameNumber_of_mantissa ?_ fun hne => absurd hround hne)
  show roundDiv _ _ _ * 1 = 0 * tenPow maxScale
  rw [hround, Nat.zero_mul, Nat.zero_mul]

theorem mul?_nearest (ha : a.isZero = false) (hb : b.isZero = false) :
    SameResult (a.mul? b)
      (nearest? (a.negative != b.negative) (a.mantissa * b.mantissa) (tenPow (a.scale + b.scale))
        (min (a.scale + b.scale) maxScale)) := by
  rw [mul?, ha, hb]
  cases hvanish : a.vanish b with
  | false => exact .refl _
  | true =>
    simp only [vanish, Bool.and_eq_true, decide_eq_true_eq] at hvanish
    obtain ⟨⟨hshort, hshort'⟩, hlong⟩ := hvanish
    have hpow : tenPow 48 ≤ tenPow (a.scale + b.scale) :=
      Nat.pow_le_pow_right (by decide) hlong
    have hproduct : a.mantissa * b.mantissa ≤ wordBound * wordBound :=
      Nat.mul_le_mul hshort.le hshort'.le
    have hsmall : 2 * (wordBound * wordBound * tenPow maxScale) < tenPow 48 := by decide
    have hmin : min (a.scale + b.scale) maxScale = maxScale :=
      min_eq_right (by rw [maxScale]; omega)
    rw [hmin]
    refine (nearest?_of_small ?_).symm
    calc 2 * (a.mantissa * b.mantissa * tenPow maxScale)
        ≤ 2 * (wordBound * wordBound * tenPow maxScale) := by gcongr
      _ < tenPow (a.scale + b.scale) := hsmall.trans_le hpow

theorem ample_mul (a b : Decimal) : Ample (a.mantissa * b.mantissa) (tenPow (a.scale + b.scale))
    (min (a.scale + b.scale) maxScale) := by
  rcases Nat.le_total maxScale (a.scale + b.scale) with hle | hle
  · exact .inl (min_eq_right hle)
  · rw [min_eq_left hle]
    exact .inr ⟨hle, Nat.dvd_mul_left _ _⟩

theorem mul?_same (ha : a.sameNumber a' = true) (hb : b.sameNumber b' = true) :
    SameResult (a.mul? b) (a'.mul? b') := by
  cases hza : a.isZero with
  | true =>
    have hza' := (isZero_congr ha).symm.trans hza
    rw [mul?, mul?, hza, hza']
    exact .refl _
  | false =>
    cases hzb : b.isZero with
    | true =>
      have hzb' := (isZero_congr hb).symm.trans hzb
      rw [mul?, mul?, hzb, hzb', Bool.or_true, Bool.or_true]
      exact .refl _
    | false =>
      have hza' := (isZero_congr ha).symm.trans hza
      have hzb' := (isZero_congr hb).symm.trans hzb
      have hsign : (a.negative != b.negative) = (a'.negative != b'.negative) := by
        rw [negative_of_sameNumber ha (mantissa_ne_zero hza),
          negative_of_sameNumber hb (mantissa_ne_zero hzb)]
      refine (mul?_nearest hza hzb).trans (.trans ?_ (mul?_nearest hza' hzb').symm)
      refine nearest?_same (tenPow_pos _) (tenPow_pos _) ?_ (fun _ => hsign) (ample_mul a b)
        (ample_mul a' b')
      rw [tenPow_add, tenPow_add, mul_mul_mul_comm, mantissa_of_sameNumber ha,
        mantissa_of_sameNumber hb, mul_mul_mul_comm]

/-! ## Quotients -/

theorem sameNumber_dropZeros (count : Nat) (d : Decimal) :
    (d.dropZeros count).sameNumber d = true := by
  rw [dropZeros]
  split
  · rename_i h
    refine sameNumber_of_mantissa ?_ fun _ => rfl
    show d.mantissa / tenPow count * tenPow d.scale = d.mantissa * tenPow (d.scale - count)
    rw [← Nat.add_sub_of_le h.1, tenPow_add, ← Nat.mul_assoc,
      Nat.div_mul_cancel (Nat.dvd_of_mod_eq_zero h.2), Nat.add_sub_of_le h.1]
  · exact sameNumber_refl d

theorem sameNumber_dropEights (limit : Nat) (d : Decimal) :
    (d.dropEights limit).sameNumber d = true := by
  induction limit generalizing d with
  | zero => exact sameNumber_refl d
  | succ limit ih =>
    rw [dropEights]
    split
    · exact sameNumber_trans (ih _) (sameNumber_dropZeros 8 d)
    · exact sameNumber_refl d

theorem sameNumber_dropMostZeros (d : Decimal) : d.dropMostZeros.sameNumber d = true :=
  sameNumber_trans (sameNumber_dropZeros 1 _) <| sameNumber_trans (sameNumber_dropZeros 2 _) <|
    sameNumber_trans (sameNumber_dropZeros 4 _) (sameNumber_dropEights 3 d)

/-- The division comes out even at the scale that is found, unless that is the greatest. -/
theorem evenScale_spec {num den : Nat} {scale : Int} (hle : scale ≤ maxScale) :
    evenScale num den scale = maxScale ∨
      ∃ digits : Nat, evenScale num den scale = scale + digits ∧ scale + digits ≤ maxScale ∧
        den ∣ num * tenPow digits := by
  fun_induction evenScale num den scale with
  | case1 num scale heven =>
    exact .inr ⟨0, by simp, by simpa using hle, by simpa using Nat.dvd_of_mod_eq_zero heven⟩
  | case2 num scale hodd hless digits ih =>
    rcases ih (by omega) with h | ⟨more, h, hmore, hdvd⟩
    · exact .inl h
    · refine .inr ⟨digits + more, by rw [h]; push_cast; ring, by push_cast; omega, ?_⟩
      rwa [tenPow_add, ← Nat.mul_assoc]
  | case3 => exact .inl rfl

theorem ample_evenScale (a b : Decimal) :
    Ample (a.mantissa * tenPow b.scale) (b.mantissa * tenPow a.scale)
      (evenScale a.mantissa b.mantissa ((a.scale : Int) - b.scale)).toNat := by
  have hle : (a.scale : Int) - b.scale ≤ maxScale := by
    have := a.scale_le
    omega
  rcases evenScale_spec hle with h | ⟨digits, h, hmore, hdvd⟩
  · exact .inl (by rw [h]; rfl)
  · rw [h]
    obtain ⟨rest, hrest⟩ : ∃ rest, b.scale + ((a.scale : Int) - b.scale + digits).toNat =
        a.scale + digits + rest :=
      Nat.exists_eq_add_of_le (by omega)
    refine .inr ⟨by omega, ?_⟩
    rw [Nat.mul_assoc, ← tenPow_add, hrest, tenPow_add, tenPow_add, ← Nat.mul_assoc,
      Nat.mul_left_comm, Nat.mul_comm b.mantissa]
    exact Nat.dvd_mul_right_of_dvd (Nat.mul_dvd_mul_left _ hdvd) _

theorem div?_nearest (ha : a.isZero = false) (hb : b.isZero = false) :
    SameResult (a.div? b)
      (nearest? (a.negative != b.negative) (a.mantissa * tenPow b.scale)
        (b.mantissa * tenPow a.scale)
        (evenScale a.mantissa b.mantissa ((a.scale : Int) - b.scale)).toNat) := by
  rw [div?, ha, hb]
  simp only [Bool.false_eq_true, if_false]
  split
  · exact .refl _
  · cases nearest? (a.negative != b.negative) (a.mantissa * tenPow b.scale)
      (b.mantissa * tenPow a.scale)
      (evenScale a.mantissa b.mantissa ((a.scale : Int) - b.scale)).toNat with
    | none => exact .none
    | some d => exact .some (sameNumber_dropMostZeros d)

theorem div?_same (ha : a.sameNumber a' = true) (hb : b.sameNumber b' = true) :
    SameResult (a.div? b) (a'.div? b') := by
  cases hzb : b.isZero with
  | true =>
    have hzb' := (isZero_congr hb).symm.trans hzb
    rw [div?, div?, hzb, hzb']
    exact .refl _
  | false =>
    have hzb' := (isZero_congr hb).symm.trans hzb
    cases hza : a.isZero with
    | true =>
      have hza' := (isZero_congr ha).symm.trans hza
      rw [div?, div?, hzb, hzb', hza, hza']
      exact .refl _
    | false =>
      have hza' := (isZero_congr ha).symm.trans hza
      have hden {a b : Decimal} (hb : b.isZero = false) : 0 < b.mantissa * tenPow a.scale :=
        Nat.mul_pos (Nat.pos_of_ne_zero (mantissa_ne_zero hb)) (tenPow_pos _)
      have hsign : (a.negative != b.negative) = (a'.negative != b'.negative) := by
        rw [negative_of_sameNumber ha (mantissa_ne_zero hza),
          negative_of_sameNumber hb (mantissa_ne_zero hzb)]
      refine (div?_nearest hza hzb).trans (.trans ?_ (div?_nearest hza' hzb').symm)
      refine nearest?_same (hden hzb) (hden hzb') ?_ (fun _ => hsign) (ample_evenScale a b)
        (ample_evenScale a' b')
      have hka := mantissa_of_sameNumber ha
      have hkb := mantissa_of_sameNumber hb
      calc a.mantissa * tenPow b.scale * (b'.mantissa * tenPow a'.scale)
          = a.mantissa * tenPow a'.scale * (b'.mantissa * tenPow b.scale) := by ring
        _ = a'.mantissa * tenPow a.scale * (b.mantissa * tenPow b'.scale) := by rw [hka, hkb]
        _ = a'.mantissa * tenPow b'.scale * (b.mantissa * tenPow a.scale) := by ring

/-! ## Remainders -/

theorem remainderMantissa_congr (ha : a.sameNumber a' = true) (hb : b.sameNumber b' = true) :
    remainderMantissa a b * tenPow (max a'.scale b'.scale) =
      remainderMantissa a' b' * tenPow (max a.scale b.scale) := by
  have hmagnitude {d d' : Decimal} {scale scale' : Nat} (h : d.sameNumber d' = true)
      (hle : d.scale ≤ scale) (hle' : d'.scale ≤ scale') :
      d.mantissa * tenPow (scale - d.scale) * tenPow scale' =
        d'.mantissa * tenPow (scale' - d'.scale) * tenPow scale := by
    have haligned := congrArg Int.natAbs (alignedMantissa_congr h hle hle')
    simpa only [alignedMantissa, Int.natAbs_mul, natAbs_signed, Int.natAbs_natCast] using haligned
  rw [remainderMantissa, remainderMantissa, ← Nat.mul_mod_mul_right, ← Nat.mul_mod_mul_right,
    hmagnitude ha (le_max_left _ _) (le_max_left _ _),
    hmagnitude hb (le_max_right _ _) (le_max_right _ _)]

theorem rem?_same (ha : a.sameNumber a' = true) (hb : b.sameNumber b' = true) :
    SameResult (a.rem? b) (a'.rem? b') := by
  have hzero : b.mantissa = 0 ↔ b'.mantissa = 0 :=
    ⟨zero_of_sameNumber hb, zero_of_sameNumber (sameNumber_symm hb)⟩
  have hcompare := compare_congr (sameNumber_abs ha) (sameNumber_abs hb)
  by_cases hzb : b.mantissa = 0
  · rw [rem?, rem?, dif_pos hzb, dif_pos (hzero.mp hzb)]
    exact .none
  have hzb' := mt hzero.mpr hzb
  cases hza : a.isZero with
  | true =>
    have hza' := (isZero_congr ha).symm.trans hza
    rw [rem?, rem?, dif_neg hzb, dif_neg hzb', hza, hza']
    exact .refl _
  | false =>
    have hza' := (isZero_congr ha).symm.trans hza
    rw [rem?, rem?, dif_neg hzb, dif_neg hzb', hza, hza', ← hcompare]
    simp only [Bool.false_eq_true, if_false]
    cases a.abs.compare b.abs with
    | lt => exact .some ha
    | eq => exact .refl _
    | gt =>
      have hremainder := remainderMantissa_congr ha hb
      refine .some (sameNumber_of_mantissa hremainder fun hne => ?_)
      have hne' : remainderMantissa a' b' ≠ 0 := by
        intro hnone
        rw [hnone, Nat.zero_mul] at hremainder
        exact hne ((Nat.mul_eq_zero.mp hremainder).resolve_right (tenPow_pos _).ne')
      show (a.negative && remainderMantissa a b != 0) =
        (a'.negative && remainderMantissa a' b' != 0)
      rw [bne_iff_ne.mpr hne, bne_iff_ne.mpr hne',
        negative_of_sameNumber ha (mantissa_ne_zero hza)]

/-! ## Whole numbers and places -/

theorem mantissa_round {places : Nat} (h : places ≤ maxScale) (d : Decimal) :
    (d.round places h).mantissa * tenPow places =
      roundDiv .awayFromZero (d.mantissa * tenPow places) (tenPow d.scale) *
        tenPow (d.round places h).scale := by
  rw [round]
  split
  · rename_i hle
    rw [← Nat.sub_add_cancel hle, tenPow_add, ← Nat.mul_assoc, roundDiv_mul_self (tenPow_pos _)]
  · rename_i hlong
    show roundDiv _ _ _ * _ = _
    congr 1
    refine roundDiv_congr (tenPow_pos _) (tenPow_pos _) ?_
    rw [Nat.mul_assoc, ← tenPow_add, Nat.add_sub_of_le (by omega)]

theorem negative_round {places : Nat} {h : places ≤ maxScale}
    (hne : (d.round places h).mantissa ≠ 0) : (d.round places h).negative = d.negative := by
  revert hne
  rw [round]
  split
  · exact fun _ => rfl
  · intro hne
    show (d.negative && roundDiv _ _ _ != 0) = d.negative
    rw [bne_iff_ne.mpr hne, Bool.and_true]

theorem sameNumber_round (h : d.sameNumber d' = true) {places : Nat} (hplaces : places ≤ maxScale) :
    (d.round places hplaces).sameNumber (d'.round places hplaces) = true := by
  have hround : roundDiv .awayFromZero (d.mantissa * tenPow places) (tenPow d.scale) =
      roundDiv .awayFromZero (d'.mantissa * tenPow places) (tenPow d'.scale) := by
    refine roundDiv_congr (tenPow_pos _) (tenPow_pos _) ?_
    rw [Nat.mul_right_comm, mantissa_of_sameNumber h, Nat.mul_right_comm]
  have hvalue : (d.round places hplaces).mantissa * tenPow (d'.round places hplaces).scale =
      (d'.round places hplaces).mantissa * tenPow (d.round places hplaces).scale := by
    refine Nat.eq_of_mul_eq_mul_right (tenPow_pos places) ?_
    rw [Nat.mul_right_comm, mantissa_round, Nat.mul_right_comm _ _ (tenPow places),
      mantissa_round, hround, Nat.mul_right_comm]
  refine sameNumber_of_mantissa hvalue fun hne => ?_
  have hne' : (d'.round places hplaces).mantissa ≠ 0 := by
    intro hnone
    rw [hnone, Nat.zero_mul] at hvalue
    exact hne ((Nat.mul_eq_zero.mp hvalue).resolve_right (tenPow_pos _).ne')
  have hd : d.mantissa ≠ 0 := by
    intro hzero
    have hmantissa := mantissa_round hplaces d
    rw [hzero, Nat.zero_mul, ← Nat.zero_mul (tenPow d.scale), roundDiv_mul_self (tenPow_pos _),
      Nat.zero_mul] at hmantissa
    exact hne ((Nat.mul_eq_zero.mp hmantissa).resolve_right (tenPow_pos _).ne')
  rw [negative_round hne, negative_round hne', negative_of_sameNumber h hd]

theorem toInt_congr (h : d.sameNumber d' = true) : d.toInt = d'.toInt := by
  have hwhole : d.mantissa / tenPow d.scale = d'.mantissa / tenPow d'.scale := by
    rw [← Nat.mul_div_mul_right _ _ (tenPow_pos d'.scale), mantissa_of_sameNumber h,
      Nat.mul_comm (tenPow d.scale), Nat.mul_div_mul_right _ _ (tenPow_pos d.scale)]
  rw [toInt, toInt, hwhole]
  by_cases hzero : d.mantissa = 0
  · simp [zero_of_sameNumber h hzero]
  · rw [negative_of_sameNumber h hzero]

theorem scale_floor (d : Decimal) : d.floor.scale = 0 := by
  rw [floor]
  split
  · assumption
  · split <;> rfl

theorem signed_floor (d : Decimal) : d.floor.signed = d.signed / (tenPow d.scale : Int) := by
  have hpos : (0 : Int) < tenPow d.scale := by exact_mod_cast tenPow_pos d.scale
  rw [floor]
  split
  · rename_i hscale
    rw [hscale, tenPow_zero, Nat.cast_one, Int.ediv_one]
  split
  · rename_i h
    obtain ⟨hnegative, hrest⟩ := h
    have hparts : (tenPow d.scale * (d.mantissa / tenPow d.scale : Nat) +
        (d.mantissa % tenPow d.scale : Nat) : Int) = d.mantissa := by
      exact_mod_cast Nat.div_add_mod d.mantissa (tenPow d.scale)
    have hless := Nat.mod_lt d.mantissa (tenPow_pos d.scale)
    have hsigned : d.signed = -(d.mantissa : Int) := if_pos hnegative
    rw [hsigned]
    show -((d.mantissa / tenPow d.scale + 1 : Nat) : Int) = _
    -- one whole less leaves the rest of a whole over
    refine ((Int.ediv_emod_unique (r := tenPow d.scale - (d.mantissa % tenPow d.scale : Nat))
      hpos).mpr ⟨?_, by omega, by omega⟩).1.symm
    push_cast at hparts ⊢
    linear_combination -hparts
  · rename_i h
    rw [signed, signed]
    cases hnegative : d.negative with
    | false => simp [truncate, hnegative]
    | true =>
      have hexact : (tenPow d.scale : Int) ∣ d.mantissa := by
        refine Int.natCast_dvd_natCast.mpr (Nat.dvd_of_mod_eq_zero ?_)
        by_contra hrest
        exact h ⟨hnegative, hrest⟩
      simp [truncate, hnegative, Int.neg_ediv_of_dvd hexact]

theorem sameNumber_floor (h : d.sameNumber d' = true) : d.floor.sameNumber d'.floor = true := by
  have hpos (scale : Nat) : (0 : Int) < tenPow scale := by exact_mod_cast tenPow_pos scale
  rw [sameNumber_iff, scale_floor, scale_floor, signed_floor, signed_floor,
    ← Int.mul_ediv_mul_of_pos_left _ _ (hpos d'.scale), sameNumber_iff.mp h,
    mul_comm (tenPow d.scale : Int), Int.mul_ediv_mul_of_pos_left _ _ (hpos d.scale)]

end ComputedFields.Decimal
