import ComputedFields.Decimal.Text
import ComputedFields.Proofs.Text.Blank
import Mathlib.Data.List.TakeWhile

/-!
# Reading back what is written

The written form of a number, but for a zero with a minus sign, reads back as the same datum, digits
after the point included.
-/

namespace ComputedFields

/-! ## Digits -/

namespace Digits

variable {c : Char} {width n init : Nat}

theorem isDigit_of_mem_fixed (h : c ∈ fixed width n) : c.isDigit = true := by
  induction width generalizing n with
  | zero => cases h
  | succ width ih =>
    rcases List.mem_append.mp h with h | h
    · exact ih h
    · obtain rfl := List.mem_singleton.mp h
      rw [Nat.isDigit_digitChar, decide_eq_true_eq]
      exact Nat.mod_lt _ (by decide)

/-- Digits of fixed width add their value to the number that was read before them. -/
theorem ofDigitChars_fixed : Nat.ofDigitChars 10 (fixed width n) init =
    init * tenPow width + n % tenPow width := by
  induction width generalizing n with
  | zero => simp [fixed, Nat.ofDigitChars_nil, Nat.mod_one]
  | succ width ih =>
    have hdigit : n % 10 < 10 := Nat.mod_lt _ (by decide)
    rw [fixed, Nat.ofDigitChars_append, ih, Nat.ofDigitChars_cons_digitChar_of_lt_ten hdigit,
      Nat.ofDigitChars_nil, tenPow_succ, Nat.mul_comm (tenPow width) 10, Nat.mod_mul]
    calc 10 * (init * tenPow width + n / 10 % tenPow width) + n % 10
        = init * (10 * tenPow width) + (n % 10 + 10 * (n / 10 % tenPow width)) := by
          rw [Nat.mul_add, Nat.mul_left_comm]
          omega

end Digits

namespace Decimal

variable {d : Decimal} {ds rest : List Char} {hasDigit : Bool} {mantissa scale : Nat}

/-! ## Runs of digits -/

theorem le_ofDigitChars (ds : List Char) (init : Nat) : init ≤ Nat.ofDigitChars 10 ds init := by
  induction ds generalizing init with
  | nil => exact Nat.le_of_eq Nat.ofDigitChars_nil.symm
  | cons c cs ih =>
    rw [Nat.ofDigitChars_cons]
    exact Nat.le_trans (by omega) (ih _)

/-- Digits of the whole part are read one by one, as long as their value fits. -/
theorem readDigits_whole (hdigits : ∀ c ∈ ds, c.isDigit = true) (hne : ds ≠ [])
    (hfits : Nat.ofDigitChars 10 ds mantissa < capacity) :
    readDigits false hasDigit mantissa 0 (ds ++ rest) =
      readDigits false true (Nat.ofDigitChars 10 ds mantissa) 0 rest := by
  induction ds generalizing mantissa hasDigit with
  | nil => exact absurd rfl hne
  | cons c cs ih =>
    have hc : c.isDigit = true := hdigits c (by simp)
    rw [Nat.ofDigitChars_cons] at hfits ⊢
    have hnext : mantissa * 10 + Digits.digit c = 10 * mantissa + (c.toNat - '0'.toNat) := by
      rw [Digits.digit, Nat.mul_comm]
    have hlt := Nat.lt_of_le_of_lt (le_ofDigitChars cs _) hfits
    rw [List.cons_append, readDigits]
    simp only [hc, hnext, hlt, if_true, show (0 : Nat) ≠ maxScale by decide, if_false,
      Bool.false_eq_true]
    cases cs with
    | nil => rfl
    | cons c' cs' => exact ih (fun x hx => hdigits x (List.mem_cons_of_mem _ hx)) (by simp) hfits

/-- Digits after the point are read one by one, up to as many as a number may have. -/
theorem readDigits_fraction (hdigits : ∀ c ∈ ds, c.isDigit = true)
    (hfits : Nat.ofDigitChars 10 ds mantissa < capacity) (hscale : scale + ds.length ≤ maxScale) :
    readDigits true true mantissa scale ds =
      some (Nat.ofDigitChars 10 ds mantissa, scale + ds.length) := by
  induction ds generalizing mantissa scale with
  | nil => simp [readDigits, Nat.ofDigitChars_nil]
  | cons c cs ih =>
    have hc : c.isDigit = true := hdigits c (by simp)
    rw [List.length_cons] at hscale
    rw [Nat.ofDigitChars_cons] at hfits ⊢
    have hnext : mantissa * 10 + Digits.digit c = 10 * mantissa + (c.toNat - '0'.toNat) := by
      rw [Digits.digit, Nat.mul_comm]
    have hlt := Nat.lt_of_le_of_lt (le_ofDigitChars cs _) hfits
    have hne : scale ≠ maxScale := by omega
    rw [readDigits]
    simp only [hc, hnext, hlt, if_true, hne, if_false]
    rw [ih (fun x hx => hdigits x (List.mem_cons_of_mem _ hx)) hfits (by omega), List.length_cons]
    congr 2
    omega

/-! ## Whole numbers -/

/-- The digits before the point. -/
def wholeChars (d : Decimal) : List Char := Nat.toDigits 10 (d.mantissa / tenPow d.scale)

theorem isDigit_of_mem_wholeChars {c : Char} (h : c ∈ d.wholeChars) : c.isDigit = true :=
  Nat.isDigit_of_mem_toDigits (by decide) (by decide) h

theorem wholeChars_ne_nil (d : Decimal) : d.wholeChars ≠ [] := Nat.toDigits_ne_nil

/-- The point and the digits after it. -/
def pointChars (d : Decimal) : List Char :=
  if d.scale = 0 then [] else '.' :: Digits.fixed d.scale d.mantissa

theorem toChars_eq (h : d.negative = false) : d.toChars = d.wholeChars ++ d.pointChars := by
  rw [toChars, h]
  rfl

theorem head?_toChars (h : d.negative = false) :
    ∃ c cs, d.toChars = c :: cs ∧ c.isDigit = true := by
  obtain ⟨c, cs, hcs⟩ := List.exists_cons_of_ne_nil (wholeChars_ne_nil d)
  have hc : c ∈ d.wholeChars := by
    rw [hcs]
    simp
  refine ⟨c, cs ++ d.pointChars, ?_, isDigit_of_mem_wholeChars hc⟩
  rw [toChars_eq h, hcs, List.cons_append]

theorem readDigits_toChars (h : d.negative = false) :
    readDigits false false 0 0 d.toChars = some (d.mantissa, d.scale) := by
  have hwhole : Nat.ofDigitChars 10 d.wholeChars 0 = d.mantissa / tenPow d.scale :=
    Nat.ofDigitChars_ten_toDigits
  have hle : d.mantissa / tenPow d.scale ≤ d.mantissa := Nat.div_le_self _ _
  have hcap := d.mantissa_lt
  rw [toChars_eq h, readDigits_whole (fun c => isDigit_of_mem_wholeChars) (wholeChars_ne_nil d)
    (by omega), hwhole, pointChars]
  split
  · rename_i hscale
    rw [hscale, tenPow_zero, Nat.div_one]
    rfl
  · have hvalue : Nat.ofDigitChars 10 (Digits.fixed d.scale d.mantissa)
        (d.mantissa / tenPow d.scale) = d.mantissa := by
      rw [Digits.ofDigitChars_fixed, Nat.mul_comm]
      exact Nat.div_add_mod _ _
    rw [readDigits]
    simp only [show (0 : Nat) ≠ maxScale by decide, if_false]
    rw [if_neg (by decide), if_pos (by decide),
      readDigits_fraction (fun c => Digits.isDigit_of_mem_fixed) (by omega)
        (by rw [Digits.length_fixed, Nat.zero_add]; exact d.scale_le), hvalue,
      Digits.length_fixed, Nat.zero_add]

/-- A number without sign reads back as it was. -/
theorem ofChars?_toChars (h : d.negative = false) : ofChars? d.toChars = some d := by
  obtain ⟨c, cs, hcs, hc⟩ := head?_toChars h
  have hminus : c ≠ '-' := by
    rintro rfl
    exact absurd hc (by decide)
  have hplus : c ≠ '+' := by
    rintro rfl
    exact absurd hc (by decide)
  have hread := readDigits_toChars h
  have hplain : readPlain? d.toChars = some d := by
    rw [hcs] at hread ⊢
    simp only [readPlain?, List.head?_cons, Option.some_beq_some, beq_eq_false_iff_ne.mpr hminus,
      beq_eq_false_iff_ne.mpr hplus, Bool.or_self, if_false, Bool.false_eq_true, hread,
      Option.bind_some, ofParts?, d.mantissa_lt, d.scale_le, and_self, dif_pos, Bool.false_and]
    rw [← h]
  rw [ofChars?, hplain]
  rfl

theorem toChars_of_negative (h : d.negative = true) : d.toChars = '-' :: d.abs.toChars := by
  rw [toChars, toChars, h]
  rfl

/-- The number with its minus sign left out if it is zero. -/
def unsignZero (d : Decimal) : Decimal := { d with negative := d.negative && d.mantissa != 0 }

theorem unsignZero_eq_self (h : d.negative = true → d.mantissa ≠ 0) : d.unsignZero = d := by
  have hsign : (d.negative && d.mantissa != 0) = d.negative := by
    cases hneg : d.negative with
    | false => rfl
    | true => exact bne_iff_ne.mpr (h hneg)
  rw [unsignZero, hsign]

/-- Every number reads back with the digits that it has; only a zero loses its minus sign. -/
theorem ofChars?_toChars_eq (d : Decimal) : ofChars? d.toChars = some d.unsignZero := by
  cases hsign : d.negative with
  | false => rw [ofChars?_toChars hsign, unsignZero_eq_self (by simp [hsign])]
  | true =>
    have hread : readDigits false false 0 0 d.abs.toChars = some (d.mantissa, d.scale) :=
      readDigits_toChars rfl
    have hplain : readPlain? d.toChars = some d.unsignZero := by
      rw [toChars_of_negative hsign]
      simp only [readPlain?, List.head?_cons, beq_self_eq_true, Bool.true_or, if_true,
        List.tail_cons, hread, Option.bind_some, ofParts?, d.mantissa_lt, d.scale_le, and_self,
        dif_pos, Bool.true_and]
      rw [unsignZero, hsign, Bool.true_and]
    rw [ofChars?, hplain]
    rfl

/-- Any number but a zero with a minus sign reads back as it was. -/
theorem ofChars?_toChars_of_ne_zero (h : d.negative = true → d.mantissa ≠ 0) :
    ofChars? d.toChars = some d := by
  rw [ofChars?_toChars_eq, unsignZero_eq_self h]

theorem mem_toChars {c : Char} (h : c ∈ d.toChars) : c.isDigit = true ∨ c = '-' ∨ c = '.' := by
  rw [toChars, List.mem_append, List.mem_append] at h
  rcases h with (h | h) | h
  · split at h
    · exact .inr (.inl (List.mem_singleton.mp h))
    · cases h
  · exact .inl (isDigit_of_mem_wholeChars h)
  · split at h
    · cases h
    · rcases List.mem_cons.mp h with h | h
      · exact .inr (.inr h)
      · exact .inl (Digits.isDigit_of_mem_fixed h)

theorem isBlank_of_mem_toChars {c : Char} (h : c ∈ d.toChars) : Text.isBlank c = false := by
  rcases mem_toChars h with h | rfl | rfl
  · exact Text.isBlank_digit h
  · rfl
  · rfl

theorem toChars_ne_nil (d : Decimal) : d.toChars ≠ [] := by
  simp [toChars, Nat.toDigits_ne_nil]

theorem exists_isDigit (d : Decimal) : ∃ c ∈ d.toChars, c.isDigit = true := by
  obtain ⟨c, hc⟩ := List.exists_mem_of_ne_nil _ (wholeChars_ne_nil d)
  refine ⟨c, ?_, isDigit_of_mem_wholeChars hc⟩
  rw [toChars]
  exact List.mem_append_left _ (List.mem_append_right _ hc)

/-! ## Signs of what is read -/

section Sign

variable {m k : Nat} {d : Decimal} {cs : List Char} {excess : Excess}

theorem negative_of_ofParts? (h : ofParts? false m k = some d) : d.negative = false := by
  rw [ofParts?] at h
  split at h
  · cases h
    rfl
  · cases h

theorem negative_of_readPlain? (h : readPlain? cs = some d) (hsign : cs.head? ≠ some '-') :
    d.negative = false := by
  have hfalse : (cs.head? == some '-') = false := beq_eq_false_iff_ne.mpr hsign
  rw [readPlain?, hfalse] at h
  obtain ⟨⟨m, k⟩, -, hparts⟩ := Option.bind_eq_some_iff.mp h
  exact negative_of_ofParts? hparts

theorem negative_of_shiftUp? (hd : d.negative = false) {d' : Decimal} {exponent : Nat}
    (h : d.shiftUp? exponent = some d') : d'.negative = false := by
  rw [shiftUp?, hd] at h
  split at h <;> exact negative_of_ofParts? h

theorem negative_of_shiftDown? (hd : d.negative = false) {d' : Decimal} {exponent : Nat}
    (h : d.shiftDown? excess exponent = some d') : d'.negative = false := by
  rw [shiftDown?.eq_def, hd] at h
  split at h
  · exact negative_of_ofParts? h
  · split at h
    · cases h
    · cases h
      rfl

theorem negative_of_readScientific? (h : readScientific? excess cs = some d)
    (hsign : cs.head? ≠ some '-') : d.negative = false := by
  rw [readScientific?] at h
  split at h
  · cases h
  · obtain ⟨base, hbase, hshift⟩ := Option.bind_eq_some_iff.mp h
    obtain ⟨⟨negative, power⟩, -, hshift⟩ := Option.bind_eq_some_iff.mp hshift
    have hplain : base.negative = false := by
      refine negative_of_readPlain? hbase ?_
      cases cs with
      | nil => simp
      | cons c cs =>
        rw [List.takeWhile_cons]
        split
        · exact hsign
        · simp
    cases negative with
    | true => exact negative_of_shiftDown? hplain hshift
    | false => exact negative_of_shiftUp? hplain hshift

/-- What is read without a sign in front is not negative. -/
theorem negative_of_ofChars? (h : ofChars? cs = some d) (hsign : cs.head? ≠ some '-') :
    d.negative = false := by
  rw [ofChars?] at h
  cases hplain : readPlain? cs with
  | some d' =>
    rw [hplain] at h
    cases h
    exact negative_of_readPlain? hplain hsign
  | none =>
    rw [hplain] at h
    exact negative_of_readScientific? h hsign

end Sign

/-! ## What is no number -/

section Foreign

variable {c x : Char} {cs : List Char} {point hasDigit : Bool} {m k : Nat} {r : Nat × Nat}

/-- The characters of a number without sign and exponent. -/
def IsPlain (c : Char) : Prop := c.isDigit = true ∨ c = '.' ∨ c = '_'

theorem isPlain_of_roundOff (h : roundOff m k cs = some r) : ∀ c ∈ cs, IsPlain c := by
  rw [roundOff] at h
  split at h
  · cases h
  · rename_i hall
    rw [Bool.not_eq_true, Bool.not_eq_false'] at hall
    intro c hc
    rcases Bool.or_eq_true_iff.mp (List.all_eq_true.mp hall c hc) with hdigit | hmark
    · exact .inl hdigit
    · exact .inr (.inr (beq_iff_eq.mp hmark))

theorem isPlain_of_readDigits (h : readDigits point hasDigit m k cs = some r) :
    ∀ c ∈ cs, IsPlain c := by
  have hcons {c : Char} {cs : List Char} (hc : IsPlain c) (hcs : ∀ x ∈ cs, IsPlain x) :
      ∀ x ∈ c :: cs, IsPlain x := List.forall_mem_cons.mpr ⟨hc, hcs⟩
  fun_induction readDigits point hasDigit m k cs with
  | case1 => exact nofun
  | case2 => cases h
  | case3 => exact isPlain_of_roundOff h
  | case4 _ _ _ _ _ _ _ hdigit _ _ ih => exact hcons (.inl hdigit) (ih h)
  | case5 => exact isPlain_of_roundOff h
  | case6 => cases h
  | case7 _ _ _ _ _ _ _ _ hpoint ih =>
    have hc := beq_iff_eq.mp (Bool.and_eq_true_iff.mp hpoint).1
    exact hcons (.inr (.inl hc)) (ih h)
  | case8 _ _ _ _ _ _ _ _ _ hmark ih =>
    have hc := beq_iff_eq.mp (Bool.and_eq_true_iff.mp hmark).1
    exact hcons (.inr (.inr hc)) (ih h)
  | case9 => cases h

/-- A text is no number if some character in it, the first one apart, is not one of a number, and
there is no mark of an exponent. -/
theorem ofChars?_eq_none (hx : x ∈ cs) (hforeign : ¬ IsPlain x)
    (hmark : ∀ y ∈ c :: cs, y ≠ 'e' ∧ y ≠ 'E') : ofChars? (c :: cs) = none := by
  have hplain : readPlain? (c :: cs) = none := by
    rw [readPlain?, Option.bind_eq_none_iff]
    intro r hr
    have hmem : x ∈ if ((c :: cs).head? == some '-' || (c :: cs).head? == some '+') = true then
        (c :: cs).tail else c :: cs := by
      split
      · exact hx
      · exact List.mem_cons_of_mem c hx
    exact absurd (isPlain_of_readDigits hr x hmem) hforeign
  have hdrop : (c :: cs).dropWhile (fun y => !(y == 'e' || y == 'E')) = [] := by
    refine List.dropWhile_eq_nil_iff.mpr fun y hy => ?_
    obtain ⟨hlower, hupper⟩ := hmark y hy
    simp [hlower, hupper]
  rw [ofChars?, hplain, readScientific?, hdrop]
  rfl

end Foreign

end Decimal

end ComputedFields
