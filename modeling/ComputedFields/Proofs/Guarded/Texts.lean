import ComputedFields.Library.Texts
import ComputedFields.Proofs.Except
import ComputedFields.Proofs.Guarded.Steps

/-!
# Text functions without a fault

The text functions with positions as words and with slices of bytes. A position that they count from
is at least one, counts leave room for their sums, and a search gives a position of the text.
-/

namespace ComputedFields.Guarded

variable {args : List Value} {value : Value} {n start : Nat}

/-! ## Slices -/

/-- The last `n` characters. -/
def takeRight (s : String) (n : Nat) : Except Fault String :=
  if s.toList.length ≤ n then .ok s
  else do
    let skipped ← difference s.toList.length n
    return String.ofList (s.toList.drop skipped)

/-- `n` characters from a position on. -/
def takeMid (s : String) (start n : Nat) : Except Fault String := do
  let skipped ← difference start 1
  return String.ofList ((s.toList.drop skipped).take n)

/-- The text with `n` characters from a position on replaced. -/
def replaceSlice (s : String) (start n : Nat) (replacement : String) : Except Fault String := do
  let before ← difference start 1
  let skipped ← wordSum before n
  return String.ofList (s.toList.take before ++ replacement.toList ++ s.toList.drop skipped)

def right (args : List Value) : Guarded Value := do
  let a ← argument args 0
  let s ← a.asText
  let n ← Library.countOrOne (args.drop 1)
  let result ← takeRight s n
  return .text result

def mid (args : List Value) : Guarded Value := do
  let a ← argument args 0
  let s ← a.asText
  let b ← argument args 1
  let start ← Library.toPosition b
  let c ← argument args 2
  let n ← c.toCount
  let result ← takeMid s start n
  return .text result

def replace (args : List Value) : Guarded Value := do
  let a ← argument args 0
  let s ← a.asText
  let b ← argument args 1
  let start ← Library.toPosition b
  let c ← argument args 2
  let n ← c.toCount
  let d ← argument args 3
  let replacement ← d.asText
  let result ← replaceSlice s start n replacement
  return .text result

/-! ## Joining -/

/-- The separator in an optional argument, a comma where there is none. -/
def separatorOrComma : List Value → Except ErrorKind String
  | [] => .ok ", "
  | a :: _ => a.asText

/-- The texts of the items that are not blank, with a separator between. -/
def join (items : List Value) (separator : String) : Except ErrorKind Value := do
  let parts ← ((Value.flatten items).filter fun v => !v.isBlank).mapM Value.asText
  return .text (String.intercalate separator parts)

def arrayJoin (args : List Value) : Guarded Value := do
  let separator ← separatorOrComma (args.drop 1)
  let items ← leading args 1
  join items separator

/-! ## Search -/

/-- The position in bytes at which a search begins after some characters: the start of the next
character, or the end of the text. -/
def searchStart? (cs : List Char) (skipped : Nat) : Option Nat :=
  (Text.charPosition? cs skipped).or
    (if skipped = cs.length then some (Text.byteLength cs) else none)

/-- The first position at which `needle` occurs after a position in bytes, or zero. -/
def findAfter (needle cs : List Char) (position : Nat) : Except Fault Nat := do
  let rest ← sliceFrom cs position
  match Text.byteFind? needle rest with
  | none => return 0
  | some offset => do
    let before ← sliceTo cs (position + offset)
    return before.length + 1

/-- The first position from `start` on at which `needle` occurs, or zero. -/
def findFrom (needle haystack : String) (start : Nat) : Except Fault Nat := do
  let skipped ← difference start 1
  match searchStart? haystack.toList skipped with
  | none => return 0
  | some position => findAfter needle.toList haystack.toList position

def find (args : List Value) : Guarded Value := do
  let a ← argument args 0
  let needle ← a.asText
  let b ← argument args 1
  let haystack ← b.asText
  let start ← Library.positionOrOne (args.drop 2)
  let result ← findFrom needle haystack start
  return Value.ofInt result

/-- The text with the occurrence of `old` after some earlier ones replaced, if there is one. -/
def substituteAfter (s old new : String) (earlier : Nat) : Except Fault String :=
  match (Text.occurrences old.toList 0 s.toList)[earlier]? with
  | none => .ok s
  | some position => do
    let before ← sliceTo s.toList position
    let after ← sliceFrom s.toList (position + Text.byteLength old.toList)
    return String.ofList (before ++ new.toList ++ after)

/-- The text with the occurrence of `old` that has a number replaced, if there is one. -/
def substituteNth (s old new : String) (n : Nat) : Except Fault String := do
  let earlier ← difference n 1
  substituteAfter s old new earlier

def substitute (args : List Value) : Guarded Value := do
  let a ← argument args 0
  let s ← a.asText
  let b ← argument args 1
  let old ← b.asText
  let c ← argument args 2
  let new ← c.asText
  if old.isEmpty then return .text s
  else
    match args[3]? with
    | none => return .text (Library.substituteText s old new none)
    | some d => do
      let n ← Library.toPosition d
      let result ← substituteNth s old new n
      return .text result

/-! ## Counts and positions -/

theorem lt_of_toCount (h : value.toCount = .ok n) : n < 2 ^ 63 := by
  obtain ⟨whole, hwhole, hcount⟩ := ok_of_bind h
  obtain ⟨number, -, hinteger⟩ := ok_of_bind hwhole
  have hlt : whole < 2 ^ 63 := by
    rcases checkInteger_cases number.toInt with ⟨hpassed, -, hlt⟩ | hfailed
    · cases hpassed.symm.trans hinteger
      exact hlt
    · cases hfailed.symm.trans hinteger
  split at hcount <;> cases hcount
  omega

theorem bounds_of_toPosition (h : Library.toPosition value = .ok n) : 1 ≤ n ∧ n < 2 ^ 63 := by
  obtain ⟨count, hcount, hposition⟩ := ok_of_bind h
  have hlt := lt_of_toCount hcount
  split at hposition
  · cases hposition
  · cases hposition
    omega

theorem pos_of_positionOrOne (h : Library.positionOrOne args = .ok n) : 1 ≤ n := by
  cases args with
  | nil =>
    cases h
    exact Nat.le_refl 1
  | cons a rest => exact (bounds_of_toPosition h).1

theorem difference_one (h : 1 ≤ start) : difference start 1 = .ok (start - 1) := if_pos h

/-! ## Slices in range -/

theorem takeRight_eq (s : String) (n : Nat) : takeRight s n = .ok (Library.takeRight s n) := by
  rw [takeRight, Library.takeRight]
  split
  · rename_i hle
    rw [Nat.sub_eq_zero_of_le hle, List.drop_zero, String.ofList_toList]
  · rename_i hlt
    rw [difference, if_pos (by omega)]
    rfl

theorem takeMid_eq (s : String) (n : Nat) (h : 1 ≤ start) :
    takeMid s start n = .ok (Library.takeMid s start n) := by
  rw [takeMid, bind_of_ok (difference_one h)]
  rfl

/-- Two counts of 63 bits have a sum of 64. -/
theorem replaceSlice_eq (s replacement : String) (hstart : 1 ≤ start) (hstart' : start < 2 ^ 63)
    (hn : n < 2 ^ 63) :
    replaceSlice s start n replacement = .ok (Library.replaceSlice s start n replacement) := by
  have hsum : wordSum (start - 1) n = .ok (start - 1 + n) := if_pos (by omega)
  rw [replaceSlice, bind_of_ok (difference_one hstart), bind_of_ok hsum]
  rfl

theorem faultless_right (h : 1 ≤ args.length) : Faultless (right args) (Library.right args) := by
  match args with
  | a :: rest =>
    refine .step rfl ((faultless_lift a.asText).bind fun s _ => ?_)
    refine (faultless_lift (Library.countOrOne rest)).bind fun n _ => ?_
    exact .step (takeRight_eq s n) (faultless_pure _)

theorem faultless_mid (h : args.length = 3) : Faultless (mid args) (Library.mid args) := by
  match args with
  | [a, b, c] =>
    refine .step rfl ((faultless_lift a.asText).bind fun s _ => ?_)
    refine .step rfl ((faultless_lift (Library.toPosition b)).bind fun start hstart => ?_)
    refine .step rfl ((faultless_lift c.toCount).bind fun n _ => ?_)
    exact .step (takeMid_eq s n (bounds_of_toPosition hstart).1) (faultless_pure _)

theorem faultless_replace (h : args.length = 4) :
    Faultless (replace args) (Library.replace args) := by
  match args with
  | [a, b, c, d] =>
    refine .step rfl ((faultless_lift a.asText).bind fun s _ => ?_)
    refine .step rfl ((faultless_lift (Library.toPosition b)).bind fun start hstart => ?_)
    refine .step rfl ((faultless_lift c.toCount).bind fun n hn => ?_)
    refine .step rfl ((faultless_lift d.asText).bind fun replacement _ => ?_)
    obtain ⟨hpos, hlt⟩ := bounds_of_toPosition hstart
    exact .step (replaceSlice_eq s replacement hpos hlt (lt_of_toCount hn)) (faultless_pure _)

theorem faultless_arrayJoin (h : 1 ≤ args.length) (h' : args.length ≤ 2) :
    Faultless (arrayJoin args) (Library.arrayJoin args) := by
  match args, (show args.length = 1 ∨ args.length = 2 by omega) with
  | [a], _ => exact .step rfl (faultless_lift (Library.join a ", "))
  | [a, b], _ =>
    exact (faultless_lift b.asText).bind fun separator _ =>
      .step rfl (faultless_lift (Library.join a separator))

/-! ## Search in range -/

theorem searchStart?_eq (cs : List Char) (skipped : Nat) :
    searchStart? cs skipped =
      if cs.length < skipped then none else some (Text.byteLength (cs.take skipped)) := by
  rw [searchStart?, Text.charPosition?]
  rcases Nat.lt_trichotomy skipped cs.length with hlt | rfl | hgt
  · rw [if_pos hlt, if_neg (by omega), if_neg (by omega)]
    rfl
  · rw [if_neg (Nat.lt_irrefl _), if_pos rfl, if_neg (Nat.lt_irrefl _), List.take_length]
    rfl
  · rw [if_neg (by omega), if_neg (by omega), if_pos hgt]
    rfl

/-- What begins between two characters is found between two characters. -/
theorem findAfter_take (needle : List Char) {cs : List Char} (h : n ≤ cs.length) :
    findAfter needle cs (Text.byteLength (cs.take n)) =
      .ok (((Text.position? needle (cs.drop n)).map (n + · + 1)).getD 0) := by
  rw [findAfter, bind_of_ok (sliceFrom_take cs n), Text.byteFind?_eq]
  cases hfound : Text.position? needle (cs.drop n) with
  | none => rfl
  | some offset =>
    have hle := Text.le_of_position? hfound
    rw [List.length_drop] at hle
    have hsum : Text.byteLength (cs.take n) + Text.byteLength ((cs.drop n).take offset) =
        Text.byteLength (cs.take (n + offset)) := by
      rw [← Text.byteLength_append, List.take_add]
    simp only [Option.map_some, hsum, bind_of_ok (sliceTo_take cs _)]
    rw [List.length_take, Nat.min_eq_left (by omega)]
    rfl

theorem findFrom_eq (needle haystack : String) (h : 1 ≤ start) :
    findFrom needle haystack start = .ok (Library.findFrom needle haystack start) := by
  rw [findFrom, bind_of_ok (difference_one h), searchStart?_eq, Library.findFrom]
  by_cases hlt : haystack.toList.length < start - 1
  · rw [if_pos hlt, if_pos hlt]
    rfl
  · rw [if_neg hlt, if_neg hlt]
    refine (findAfter_take _ (Nat.le_of_not_lt hlt)).trans ?_
    cases Text.position? needle.toList (haystack.toList.drop (start - 1)) with
    | none => rfl
    | some offset =>
      have hposition : start - 1 + offset + 1 = start + offset := by omega
      exact congrArg Except.ok hposition

example : findFrom "b" "aéb" 0 = .error .word := rfl

/-- Both slices of the text end where the occurrence begins or ends. -/
theorem substituteAfter_eq (s old new : String) (earlier : Nat) :
    substituteAfter s old new earlier =
      .ok (String.ofList (Text.replaceNth old.toList new.toList earlier 0 s.toList)) := by
  rw [substituteAfter]
  cases hoccurs : (Text.occurrences old.toList 0 s.toList)[earlier]? with
  | none => simp only [Text.replaceNth_of_none hoccurs, String.ofList_toList]
  | some position =>
    obtain ⟨before, after, hsplit, rfl, hreplaced⟩ :=
      Text.exists_of_occurrence new.toList hoccurs
    have hbefore : sliceTo s.toList (Text.byteLength before) = .ok before := by
      rw [hsplit, List.append_assoc]
      exact sliceTo_append before _
    have hafter : sliceFrom s.toList (Text.byteLength before + Text.byteLength old.toList) =
        .ok after := by
      rw [hsplit, ← Text.byteLength_append]
      exact sliceFrom_append _ after
    simp only [bind_of_ok hbefore, bind_of_ok hafter, hreplaced]
    rfl

theorem substituteNth_eq (s new : String) {old : String} (hold : old.isEmpty = false)
    (h : 1 ≤ n) :
    substituteNth s old new n = .ok (Library.substituteText s old new (some n)) := by
  rw [substituteNth, bind_of_ok (difference_one h), substituteAfter_eq, Library.substituteText,
    hold]
  rfl

theorem faultless_find (h : 2 ≤ args.length) : Faultless (find args) (Library.find args) := by
  match args with
  | a :: b :: rest =>
    refine .step rfl ((faultless_lift a.asText).bind fun needle _ => ?_)
    refine .step rfl ((faultless_lift b.asText).bind fun haystack _ => ?_)
    refine (faultless_lift (Library.positionOrOne rest)).bind fun start hstart => ?_
    exact .step (findFrom_eq needle haystack (pos_of_positionOrOne hstart)) (faultless_pure _)

theorem faultless_substitute (h : 3 ≤ args.length) :
    Faultless (substitute args) (Library.substitute args) := by
  match args with
  | a :: b :: c :: rest =>
    refine .step rfl ((faultless_lift a.asText).bind fun s _ => ?_)
    refine .step rfl ((faultless_lift b.asText).bind fun old _ => ?_)
    refine .step rfl ((faultless_lift c.asText).bind fun new _ => ?_)
    cases hold : old.isEmpty with
    | true =>
      cases rest with
      | nil =>
        simp only [Library.substituteText, hold]
        exact faultless_pure _
      | cons d rest => exact faultless_pure _
    | false =>
      cases rest with
      | nil => exact faultless_pure _
      | cons d rest =>
        refine (faultless_lift (Library.toPosition d)).bind fun n hn => ?_
        exact .step (substituteNth_eq s new hold (bounds_of_toPosition hn).1) (faultless_pure _)

end ComputedFields.Guarded
