import ComputedFields.Library.Numbers
import ComputedFields.Proofs.Decimal.Fit
import ComputedFields.Proofs.Except
import ComputedFields.Proofs.Guarded.Steps

/-!
# Numeric functions without a fault

Rounding to tens, hundreds and so on divides by a whole number other than zero, and a divisor is
added to a remainder of the other sign only. Neither leaves the decimals.
-/

namespace ComputedFields.Guarded

variable {args : List Value} {power : Nat} {factor : Decimal}

/-! ## Rounding -/

/-- The number rounded to a multiple of a power of ten. -/
def roundPower (n : Decimal) (power : Nat) : Guarded Decimal := do
  let factor ← Library.powerOfTen (min power 29)
  let scaled ← decimalQuotient n factor
  Value.orOverflow ((scaled.round 0 (Nat.zero_le _)).mul? factor)

def roundTo (n : Decimal) (digits : Int) : Guarded Value :=
  .number <$>
    if 0 ≤ digits then liftM (Library.roundDigits n digits.toNat) else roundPower n digits.natAbs

/-- The digits in an optional argument, none where there is none. -/
def digitsOrZero : List Value → Except ErrorKind Int
  | [] => .ok 0
  | a :: _ => a.toInteger

def round (args : List Value) : Guarded Value := do
  let a ← argument args 0
  let n ← a.toNumber
  let digits ← digitsOrZero (args.drop 1)
  roundTo n digits

/-! ## Remainder -/

/-- The remainder with the sign of the divisor. -/
def modulo (n d : Decimal) : Guarded Decimal :=
  if d.isZero then throw .divisionByZero
  else do
    let r ← Value.orOverflow (n.rem? d)
    if !r.isZero && r.negative != d.negative then decimalSum r d else return r

def mod (args : List Value) : Guarded Value := do
  let a ← argument args 0
  let n ← a.toNumber
  let b ← argument args 1
  let d ← b.toNumber
  let r ← modulo n d
  return .number r

/-! ## Results in range -/

/-- A power of ten is a whole number other than zero. -/
theorem whole_of_powerOfTen (h : Library.powerOfTen power = .ok factor) :
    factor.scale = 0 ∧ factor.isZero = false := by
  induction power generalizing factor with
  | zero =>
    cases h
    exact ⟨rfl, rfl⟩
  | succ power ih =>
    obtain ⟨p, hp, hfactor⟩ := ok_of_bind h
    obtain ⟨hscale, hzero⟩ := ih hp
    cases hproduct : p.mul? Library.ten with
    | none =>
      rw [hproduct] at hfactor
      cases hfactor
    | some d =>
      rw [hproduct] at hfactor
      cases hfactor
      exact Decimal.whole_of_mul? hscale rfl hzero rfl hproduct

theorem faultless_roundPower (n : Decimal) (power : Nat) :
    Faultless (roundPower n power) (Library.roundPower n power) := by
  refine (faultless_lift _).bind fun factor hfactor => ?_
  obtain ⟨hscale, hzero⟩ := whole_of_powerOfTen hfactor
  obtain ⟨q, hq⟩ := Decimal.exists_div? n hscale hzero
  have hquotient : decimalQuotient n factor = .ok q := by
    rw [decimalQuotient, hzero, hq]
    rfl
  rw [hq]
  exact .step hquotient (faultless_lift _)

theorem faultless_roundTo (n : Decimal) (digits : Int) :
    Faultless (roundTo n digits) (Library.roundTo n digits) := by
  rw [roundTo, Library.roundTo]
  refine Faultless.map ?_ _
  split
  · exact faultless_lift _
  · exact faultless_roundPower n digits.natAbs

theorem faultless_round (h : 1 ≤ args.length) (h' : args.length ≤ 2) :
    Faultless (round args) (Library.round args) := by
  match args, (show args.length = 1 ∨ args.length = 2 by omega) with
  | [a], _ =>
    exact .step rfl ((faultless_lift a.toNumber).bind fun n _ => faultless_roundTo n 0)
  | [a, b], _ =>
    refine .step rfl ((faultless_lift a.toNumber).bind fun n _ => ?_)
    exact (faultless_lift b.toInteger).bind fun digits _ => faultless_roundTo n digits

/-- The divisor is added to a remainder of the other sign. -/
theorem faultless_modulo (n d : Decimal) : Faultless (modulo n d) (Library.modulo n d) := by
  rw [modulo, Library.modulo]
  split
  · rfl
  · refine (faultless_lift _).bind fun r _ => ?_
    split
    · rename_i hsigns
      have hne : r.negative ≠ d.negative := by
        simpa using (Bool.and_eq_true_iff.mp hsigns).2
      obtain ⟨s, hs⟩ := Decimal.exists_add? hne
      rw [decimalSum, hs]
      rfl
    · exact faultless_pure r

theorem faultless_mod (h : args.length = 2) : Faultless (mod args) (Library.mod args) := by
  match args with
  | [a, b] =>
    refine .step rfl ((faultless_lift a.toNumber).bind fun n _ => ?_)
    refine .step rfl ((faultless_lift b.toNumber).bind fun d _ => ?_)
    exact (faultless_modulo n d).bind fun r _ => faultless_pure _

end ComputedFields.Guarded
