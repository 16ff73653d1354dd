import ComputedFields.Text.Search
import Mathlib

/-!
# Positions in bytes

A text is held as the bytes of its characters, and a position in it is a count of bytes. Not every
count is one: it may end inside a character or reach past the text. A search in bytes finds what a
search by characters finds, and only at positions of the text.
-/

namespace ComputedFields.Text

variable {old needle before after cs : List Char} {offset n position : Nat}

/-- The number of bytes of some characters. -/
def byteLength (cs : List Char) : Nat := (cs.map Char.utf8Size).sum

/-- The characters before and after a position. There are none when a character lies across the
position or the text ends before it. -/
def splitAtByte? : Nat → List Char → Option (List Char × List Char)
  | 0, cs => some ([], cs)
  | _ + 1, [] => none
  | n + 1, c :: cs =>
    if c.utf8Size ≤ n + 1 then
      (splitAtByte? (n + 1 - c.utf8Size) cs).map fun (before, after) => (c :: before, after)
    else none

/-- The position of the character with a number, from zero. -/
def charPosition? (cs : List Char) (n : Nat) : Option Nat :=
  if n < cs.length then some (byteLength (cs.take n)) else none

/-- The first position at which `needle` occurs. -/
def byteFind? (needle : List Char) : List Char → Option Nat
  | [] => if needle.isEmpty then some 0 else none
  | c :: cs =>
    if startsWith needle (c :: cs) then some 0 else (byteFind? needle cs).map (c.utf8Size + ·)

/-- The positions at which `old` occurs, from left to right and without overlap. The first `skip`
characters belong to the occurrence just found. -/
def occurrences (old : List Char) (skip : Nat) : List Char → List Nat
  | [] => []
  | c :: cs =>
    match skip with
    | skip + 1 => (occurrences old skip cs).map (c.utf8Size + ·)
    | 0 =>
      if startsWith old (c :: cs) then
        0 :: (occurrences old (old.length - 1) cs).map (c.utf8Size + ·)
      else (occurrences old 0 cs).map (c.utf8Size + ·)

/-! ## Splitting -/

theorem byteLength_cons (c : Char) (cs : List Char) :
    byteLength (c :: cs) = c.utf8Size + byteLength cs := rfl

theorem byteLength_append (before after : List Char) :
    byteLength (before ++ after) = byteLength before + byteLength after := by
  rw [byteLength, List.map_append, List.sum_append]
  rfl

/-- The bytes of whole characters at the start of a text end at one of its positions. -/
theorem splitAtByte?_append (before after : List Char) :
    splitAtByte? (byteLength before) (before ++ after) = some (before, after) := by
  induction before with
  | nil => cases after <;> rfl
  | cons c before ih =>
    obtain ⟨k, hk⟩ := Nat.exists_eq_succ_of_ne_zero (Char.utf8Size_pos c).ne'
    have hsize : c.utf8Size + byteLength before = k + byteLength before + 1 := by omega
    have hrest : k + byteLength before + 1 - c.utf8Size = byteLength before := by omega
    rw [byteLength_cons, hsize, List.cons_append, splitAtByte?, if_pos (by omega), hrest, ih]
    rfl

/-! ## Search -/

theorem exists_of_startsWith (h : startsWith old cs = true) : ∃ after, cs = old ++ after := by
  obtain ⟨after, h⟩ := List.isPrefixOf_iff_prefix.mp h
  exact ⟨after, h.symm⟩

/-- The search in bytes finds the same occurrence. -/
theorem byteFind?_eq (needle cs : List Char) :
    byteFind? needle cs = (position? needle cs).map fun offset => byteLength (cs.take offset) := by
  induction cs with
  | nil => cases needle <;> rfl
  | cons c cs ih =>
    rw [byteFind?, position?]
    split
    · rfl
    · rw [ih, Option.map_map, Option.map_map]
      rfl

theorem le_of_position? (h : position? needle cs = some offset) : offset ≤ cs.length := by
  induction cs generalizing offset with
  | nil =>
    cases needle <;> cases h
    exact Nat.le_refl 0
  | cons c cs ih =>
    rw [position?] at h
    split at h
    · cases h
      exact Nat.zero_le _
    · obtain ⟨k, hk, rfl⟩ := Option.map_eq_some_iff.mp h
      exact Nat.succ_le_succ (ih hk)

/-! ## The occurrence with a number -/

variable {new : List Char} {earlier skip : Nat}

/-- Where there is no such occurrence, nothing is replaced. -/
theorem replaceNth_of_none (h : (occurrences old skip cs)[earlier]? = none) :
    replaceNth old new earlier skip cs = cs := by
  induction cs generalizing earlier skip with
  | nil => rfl
  | cons c cs ih =>
    cases skip with
    | succ skip =>
      rw [occurrences, List.getElem?_map, Option.map_eq_none_iff] at h
      rw [replaceNth, ih h]
    | zero =>
      rw [occurrences] at h
      simp only [replaceNth]
      split at h
      · rename_i hstarts
        rw [if_pos hstarts]
        cases earlier with
        | zero => cases h
        | succ earlier =>
          rw [List.getElem?_cons_succ, List.getElem?_map, Option.map_eq_none_iff] at h
          simp only [ih h]
      · rename_i hstarts
        rw [List.getElem?_map, Option.map_eq_none_iff] at h
        rw [if_neg hstarts, ih h]

/-- The text lies around the occurrence, and it alone is replaced. -/
theorem exists_of_occurrence (new : List Char)
    (h : (occurrences old skip cs)[earlier]? = some position) :
    ∃ before after, cs = before ++ old ++ after ∧ position = byteLength before ∧
      replaceNth old new earlier skip cs = before ++ new ++ after := by
  induction cs generalizing earlier skip position with
  | nil => cases h
  | cons c cs ih =>
    -- an occurrence further on has the character before it as well
    have hlater {earlier skip k : Nat} (hk : (occurrences old skip cs)[earlier]? = some k) :
        ∃ before after, c :: cs = before ++ old ++ after ∧ c.utf8Size + k = byteLength before ∧
          c :: replaceNth old new earlier skip cs = before ++ new ++ after := by
      obtain ⟨before, after, hsplit, hposition, hreplaced⟩ := ih hk
      exact ⟨c :: before, after, by rw [hsplit]; rfl, by rw [hposition]; rfl,
        by rw [hreplaced]; rfl⟩
    cases skip with
    | succ skip =>
      rw [occurrences, List.getElem?_map] at h
      obtain ⟨k, hk, rfl⟩ := Option.map_eq_some_iff.mp h
      exact hlater hk
    | zero =>
      rw [occurrences] at h
      simp only [replaceNth]
      split at h
      · rename_i hstarts
        rw [if_pos hstarts]
        cases earlier with
        | zero =>
          cases h
          obtain ⟨after, hafter⟩ := exists_of_startsWith hstarts
          refine ⟨[], after, hafter, rfl, ?_⟩
          simp only [hafter, List.drop_left, List.nil_append]
        | succ earlier =>
          rw [List.getElem?_cons_succ, List.getElem?_map] at h
          obtain ⟨k, hk, rfl⟩ := Option.map_eq_some_iff.mp h
          exact hlater hk
      · rename_i hstarts
        rw [List.getElem?_map] at h
        obtain ⟨k, hk, rfl⟩ := Option.map_eq_some_iff.mp h
        rw [if_neg hstarts]
        exact hlater hk

end ComputedFields.Text
