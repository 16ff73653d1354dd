import ComputedFields.Proofs.Library.Totals
import ComputedFields.Proofs.Value.Whole

/-!
# Averages and extremes

An average is the total, as it was added up, divided by the count and rounded. Rounding a quotient
does not carry it past the extremes, so that an average lies between them as long as no addition is
rounded. Additions that are rounded can carry it out, though not far.
-/

namespace ComputedFields.Library

open Decimal (precision precision_pos Rounded)
open Value (eq_some_of_orOverflow orOverflow)

variable {args : List Value} {ns : List Decimal} {a lo hi s : Decimal} {bound q t : ℚ} {steps : ℕ}

theorem average_eq_ok (h : average args = .ok (.number a)) : ∃ n ns s,
    numbers args = .ok (n :: ns) ∧ total (n :: ns) = .ok s ∧
      Rounded (s.toRat / (n :: ns).length) a.toRat := by
  obtain ⟨ns, hns, h⟩ := ok_of_bind h
  cases ns with
  | nil => cases h
  | cons n ns =>
    obtain ⟨s, hs, h⟩ := ok_of_bind h
    obtain ⟨count, hcount, h⟩ := ok_of_bind h
    obtain ⟨quotient, hquotient, h⟩ := ok_of_bind h
    cases h
    have hrounded := Decimal.rounded_div? (eq_some_of_orOverflow hquotient)
    rw [Decimal.toRat_of_ofInt? (eq_some_of_orOverflow hcount), Int.cast_natCast] at hrounded
    exact ⟨n, ns, s, hns, hs, hrounded⟩

theorem minimum_eq_ok (h : numbers args = .ok ns) :
    minimum args = .ok (numberOrNull (least? ns)) := by
  rw [minimum, h]
  rfl

theorem maximum_eq_ok (h : numbers args = .ok ns) :
    maximum args = .ok (numberOrNull (greatest? ns)) := by
  rw [maximum, h]
  rfl

/-- A quotient that is off by some part of a bound is off by one rounding more once rounded. -/
theorem error_rounded (ht : |t| ≤ bound) (hq : |q - t| ≤ drift steps * bound)
    (h : Rounded q a.toRat) : |a.toRat - t| ≤ drift (steps + 1) * max bound 1 := by
  have hbound : bound ≤ max bound 1 := le_max_left _ _
  have hpart : drift steps * bound ≤ drift steps * max bound 1 :=
    mul_le_mul_of_nonneg_left hbound (drift_nonneg steps)
  have hsize : max |q| 1 ≤ max bound 1 + drift steps * max bound 1 := by
    have hnonneg := mul_nonneg (drift_nonneg steps) (zero_le_one.trans (le_max_right bound 1))
    have hbelow : |q| ≤ |t| + |q - t| := by
      calc |q| = |t + (q - t)| := by rw [add_sub_cancel]
        _ ≤ |t| + |q - t| := abs_add_le _ _
    exact max_le (by linarith) (by linarith [le_max_right bound 1])
  have hlost := mul_le_mul_of_nonneg_left hsize precision_pos.le
  calc |a.toRat - t| ≤ |a.toRat - q| + |q - t| := abs_sub_le _ _ _
    _ ≤ precision * max |q| 1 + drift steps * max bound 1 := by
      linarith [h.error_le]
    _ ≤ precision * (max bound 1 + drift steps * max bound 1) + drift steps * max bound 1 := by
      linarith
    _ = drift (steps + 1) * max bound 1 := by
      rw [drift_succ]
      ring

/-- Where an average is a number, so are the extremes. It lies between them if no partial sum has to
be rounded, and then the average of equal numbers is that number. If partial sums are rounded it can
lie outside, by about one part in `10 ^ 28` for each number that is added. -/
theorem average_between (h : average args = .ok (.number a)) :
    ∃ ns lo hi, numbers args = .ok ns ∧
      minimum args = .ok (.number lo) ∧ maximum args = .ok (.number hi) ∧
      (SumsFit ns → lo.toRat ≤ a.toRat ∧ a.toRat ≤ hi.toRat) ∧
      (SumsFit ns → ∀ x, (∀ n ∈ ns, n.toRat = x) → a.toRat = x) ∧
      lo.toRat - drift ns.length * max (max |lo.toRat| |hi.toRat|) 1 ≤ a.toRat ∧
      a.toRat ≤ hi.toRat + drift ns.length * max (max |lo.toRat| |hi.toRat|) 1 := by
  obtain ⟨n, ns, s, hns, hs, hrounded⟩ := average_eq_ok h
  obtain ⟨lo, hlo, hmem, hleast⟩ := least?_cons n ns
  obtain ⟨hi, hhi, hmem', hgreatest⟩ := greatest?_cons n ns
  have hcount : (0 : ℚ) < (n :: ns).length := by exact_mod_cast Nat.succ_pos _
  obtain ⟨hlow, hhigh⟩ := exactSum_between hleast hgreatest
  have hlow : lo.toRat ≤ exactSum (n :: ns) / (n :: ns).length := by
    rwa [le_div_iff₀ hcount, mul_comm]
  have hhigh : exactSum (n :: ns) / (n :: ns).length ≤ hi.toRat := by
    rwa [div_le_iff₀ hcount, mul_comm]
  have hexact (hfit : SumsFit (n :: ns)) : lo.toRat ≤ a.toRat ∧ a.toRat ≤ hi.toRat := by
    obtain ⟨s', hs', hvalue⟩ := total_exact hfit
    cases hs.symm.trans hs'
    rw [hvalue] at hrounded
    exact ⟨hrounded.toRat_le hlow, hrounded.le_toRat hhigh⟩
  have herror : |a.toRat - exactSum (n :: ns) / (n :: ns).length| ≤
      drift (n :: ns).length * max (max |lo.toRat| |hi.toRat|) 1 := by
    refine error_rounded (abs_le_max_abs_abs hlow hhigh) ?_ hrounded
    have hwithin := magnitude_le fun m hm =>
      abs_le_max_abs_abs (hleast m hm) (hgreatest m hm)
    rw [← sub_div, abs_div, abs_of_pos hcount, div_le_iff₀ hcount]
    calc |s.toRat - exactSum (n :: ns)| ≤ drift ns.length * magnitude (n :: ns) := total_error hs
      _ ≤ drift ns.length * ((n :: ns).length * max |lo.toRat| |hi.toRat|) :=
        mul_le_mul_of_nonneg_left hwithin (drift_nonneg _)
      _ = drift ns.length * max |lo.toRat| |hi.toRat| * (n :: ns).length := by ring
  have hbounds := abs_le.mp herror
  refine ⟨n :: ns, lo, hi, hns, ?_, ?_, hexact, fun hfit x hx => ?_, by linarith, by linarith⟩
  · rw [minimum_eq_ok hns, hlo]
    rfl
  · rw [maximum_eq_ok hns, hhi]
    rfl
  · obtain ⟨hlower, hupper⟩ := hexact hfit
    rw [hx lo hmem] at hlower
    rw [hx hi hmem'] at hupper
    exact le_antisymm hupper hlower

/-- A number whose mantissa is as long as it may be, but for its last unit. -/
def almostFull : Decimal := ⟨false, Decimal.capacity - 2, 28, by decide, by decide⟩

/-- The number one unit of the last digit above it. -/
def full : Decimal := ⟨false, Decimal.capacity - 1, 28, Decimal.pred_capacity_lt, by decide⟩

theorem average_almostFull :
    average [.number almostFull, .number almostFull] = .ok (.number full) := by
  decide +kernel

/-- The total of two equal numbers is rounded up, and so is their average. -/
theorem average_beyond_greatest :
    ¬ ∀ args a, average args = .ok (.number a) → ∃ lo hi, minimum args = .ok (.number lo) ∧
      maximum args = .ok (.number hi) ∧ lo.toRat ≤ a.toRat ∧ a.toRat ≤ hi.toRat := by
  intro h
  obtain ⟨lo, hi, -, hhi, -, hle⟩ := h _ _ average_almostFull
  have hgreatest : maximum [.number almostFull, .number almostFull] = .ok (.number almostFull) := by
    decide
  cases hgreatest.symm.trans hhi
  exact absurd hle (not_le.mpr ((lt_iff almostFull full).mp (by decide)))

/-- A list of linked values with a blank and a text among them, and another text. -/
def linkedTens : List Value :=
  [.list [.number ten, .null, .text "20"], .text "3.0"]

/-- Their average is eleven. -/
theorem average_linkedTens : ∃ a ns lo hi, average linkedTens = .ok (.number a) ∧
    numbers linkedTens = .ok ns ∧ SumsFit ns ∧ minimum linkedTens = .ok (.number lo) ∧
      maximum linkedTens = .ok (.number hi) ∧ lo.toRat ≤ a.toRat ∧ a.toRat ≤ hi.toRat := by
  have haverage : average linkedTens =
      .ok (.number ⟨false, 110, 1, by decide, by decide⟩) := by decide +kernel
  have hnumbers : numbers linkedTens = .ok [ten, ⟨false, 20, 0, by decide, by decide⟩,
      ⟨false, 30, 1, by decide, by decide⟩] := by decide
  obtain ⟨ns, lo, hi, hns, hlo, hhi, hbetween, -⟩ := average_between haverage
  have hfit : SumsFit ns := by
    cases hnumbers.symm.trans hns
    exact sumsFit_of_magnitude_lt (k := 1) (by decide) (by decide) (by decide +kernel)
  exact ⟨_, ns, lo, hi, haverage, hns, hfit, hlo, hhi, hbetween hfit⟩

end ComputedFields.Library
