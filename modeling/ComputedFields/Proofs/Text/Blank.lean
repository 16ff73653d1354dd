import ComputedFields.Text.Blank
import Mathlib.Data.List.DropRight

/-!
# Trimmed names

A text that has been rid of the white space around it has none left.
-/

namespace ComputedFields.Text

/-- A name without white space around it. -/
def Trimmed (name : String) : Prop := name.toList ≠ [] ∧ trimChars name.toList = name.toList

theorem isBlank_digit {c : Char} (h : c.isDigit = true) : isBlank c = false := by
  have hrange : 48 ≤ c.toNat ∧ c.toNat ≤ 57 := by
    simpa [Char.isDigit, UInt32.le_iff_toNat_le] using h
  simp only [isBlank, blankRanges, inRanges]
  grind

theorem trimStart_eq_self {cs : List Char} (h : ∀ c ∈ cs.head?, isBlank c = false) :
    trimStart cs = cs := by
  cases cs with
  | nil => rfl
  | cons c cs =>
    rw [trimStart, List.dropWhile_cons_of_neg]
    simp [h c rfl]

theorem head?_trimStart (cs : List Char) : ∀ c ∈ (trimStart cs).head?, isBlank c = false := by
  intro c hc
  have hhead := List.head?_dropWhile_not isBlank cs
  rw [trimStart] at hc
  rw [Option.mem_def] at hc
  rw [hc] at hhead
  simpa using hhead

theorem trimChars_eq_self {cs : List Char} (h : ∀ c ∈ cs, isBlank c = false) :
    trimChars cs = cs := by
  have hstart : trimStart cs = cs := trimStart_eq_self fun c hc => h c (List.mem_of_head? hc)
  have hend : trimStart cs.reverse = cs.reverse := trimStart_eq_self fun c hc =>
    h c (List.mem_reverse.mp (List.mem_of_head? hc))
  rw [trimChars, hstart, trimEnd]
  exact congrArg List.reverse hend |>.trans cs.reverse_reverse

theorem head?_trimChars (cs : List Char) : ∀ c ∈ (trimChars cs).head?, isBlank c = false := by
  intro c hc
  obtain ⟨rest, hrest⟩ : trimEnd (trimStart cs) <+: trimStart cs :=
    List.rdropWhile_prefix isBlank _
  refine head?_trimStart cs c ?_
  rw [← hrest, List.head?_append]
  exact Option.mem_def.mpr (by rw [← trimChars, Option.mem_def.mp hc]; rfl)

/-- What is left of a list does not end as what was dropped from its end. -/
theorem getLast?_rdropWhile {α : Type} (p : α → Bool) (xs : List α) :
    ∀ x ∈ (xs.rdropWhile p).getLast?, p x = false := by
  intro x hx
  have hne : xs.rdropWhile p ≠ [] := by
    intro hnil
    rw [hnil] at hx
    cases hx
  have hlast := List.rdropWhile_last_not p xs hne
  rw [List.getLast?_eq_getLast_of_ne_nil hne] at hx
  rwa [← Option.some.inj (Option.mem_def.mp hx), ← Bool.not_eq_true]

theorem getLast?_trimChars (cs : List Char) :
    ∀ c ∈ (trimChars cs).getLast?, isBlank c = false :=
  getLast?_rdropWhile isBlank (trimStart cs)

theorem trimChars_trimChars (cs : List Char) : trimChars (trimChars cs) = trimChars cs := by
  have hstart : trimStart (trimEnd (trimStart cs)) = trimEnd (trimStart cs) :=
    trimStart_eq_self (head?_trimChars cs)
  rw [trimChars, trimChars, hstart]
  exact List.rdropWhile_idempotent _ _

theorem trimmed_trim {name : String} (h : (trim name).isEmpty = false) :
    Trimmed (trim name) := by
  refine ⟨?_, ?_⟩
  · intro hnil
    rw [String.toList_eq_nil_iff] at hnil
    simp [hnil] at h
  · rw [trim, String.toList_ofList, trimChars_trimChars]

end ComputedFields.Text
