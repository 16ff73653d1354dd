import ComputedFields.Proofs.Ordering
import ComputedFields.Store

/-!
# Stores

What a change of a value or of links does to what is read, and links read from both ends. After any
updates, what is read is what was stored last, and the links that lead to a record are found without
repetitions.
-/

namespace ComputedFields.Store

variable {store : Store} {record : RecordId} {f : FieldId} {cell : Cell}

theorem eq_null_of_isNull {v : Value} (h : v.isNull = true) : v = .null := by
  cases v with
  | null => rfl
  | _ => cases h

theorem fieldValue_setValue (v : Value) : (store.setValue record f v).fieldValue cell.1 cell.2 =
    if cell = (record, f) then v else store.fieldValue cell.1 cell.2 := by
  rw [setValue, fieldValue, fieldValue]
  cases hnull : v.isNull with
  | true =>
    have hv := eq_null_of_isNull hnull
    by_cases hc : cell = (record, f) <;> simp [hc, hv]
  | false => by_cases hc : cell = (record, f) <;> simp [hc]

theorem linkedRecords_setLinks (targets : List RecordId) :
    (store.setLinks record f targets).linkedRecords cell.1 cell.2 =
      if cell = (record, f) then targets else store.linkedRecords cell.1 cell.2 := by
  rw [setLinks, linkedRecords, linkedRecords]
  cases hempty : targets.isEmpty with
  | true =>
    have htargets := List.isEmpty_iff.mp hempty
    by_cases hc : cell = (record, f) <;> simp [hc, htargets]
  | false => by_cases hc : cell = (record, f) <;> simp [hc]

/-! ## Links from both ends -/

/-- Links are found from both ends. -/
theorem mem_recordsLinkingTo {link : FieldId} {target : RecordId} :
    record ∈ store.recordsLinkingTo link target ↔ target ∈ store.linkedRecords record link := by
  rw [recordsLinkingTo, Ordered.mem_sort, List.mem_map]
  constructor
  · rintro ⟨⟨⟨r, f⟩, targets⟩, hmem, rfl⟩
    obtain ⟨hentry, hcond⟩ := List.mem_filter.mp hmem
    simp only [Bool.and_eq_true, decide_eq_true_eq, List.contains_eq_mem] at hcond
    obtain ⟨rfl, htarget⟩ := hcond
    rw [linkedRecords, Entries.get?_eq_some_iff.mpr hentry]
    exact htarget
  · intro h
    rw [linkedRecords] at h
    cases hlinks : store.links.get? (record, link) with
    | none => simp [hlinks] at h
    | some targets =>
      rw [hlinks, Option.getD_some] at h
      refine ⟨((record, link), targets), List.mem_filter.mpr ⟨?_, ?_⟩, rfl⟩
      · exact Entries.get?_eq_some_iff.mp hlinks
      · simp [h]

/-- Entries of one field that have one record have one key, so no record comes twice among them. -/
theorem nodup_records {ν : Type} (m : Entries Cell ν) (field : FieldId) {p : Cell × ν → Bool}
    (hp : ∀ entry, p entry = true → entry.1.2 = field) :
    ((m.toList.filter p).map (·.1.1)).Nodup := by
  have hkeys : ((m.toList.filter p).map (·.1)).Nodup :=
    m.nodup.sublist (List.filter_sublist.map _)
  refine List.Nodup.map_on (fun a ha b hb hrecord => ?_) hkeys.of_map
  have hfield : a.1.2 = b.1.2 :=
    (hp a (List.mem_filter.mp ha).2).trans (hp b (List.mem_filter.mp hb).2).symm
  exact List.inj_on_of_nodup_map hkeys ha hb (Prod.ext hrecord hfield)

/-- No record comes twice among those that lead to another through one link field, however often it
names the other. -/
theorem pairwise_recordsLinkingTo (link : FieldId) (target : RecordId) :
    (store.recordsLinkingTo link target).Pairwise (·.index < ·.index) := by
  have hsorted : (store.recordsLinkingTo link target).Pairwise (RecordId.compare · · = .lt) := by
    refine Ordered.pairwise_lt_sort (nodup_records store.links link fun entry hentry => ?_)
    simp only [Bool.and_eq_true, decide_eq_true_eq] at hentry
    exact hentry.1
  exact hsorted.imp fun hlt => Nat.compare_eq_lt.mp hlt

/-! ## Stores that updates make -/

/-- An update of a store. -/
inductive Update where
  | addRecord (table : TableId)
  | setValue (record : RecordId) (field : FieldId) (value : Value)
  | setLinks (record : RecordId) (link : FieldId) (targets : List RecordId)

/-- The store after an update. -/
def update (s : Store) : Update → Store
  | .addRecord table => (s.addRecord table).1
  | .setValue record field value => s.setValue record field value
  | .setLinks record link targets => s.setLinks record link targets

/-- The store that updates make of the empty one, the latest update first. -/
def updated : List Update → Store
  | [] => empty
  | latest :: earlier => (updated earlier).update latest

/-- The value that an update stores in a field of a record, null to clear it. -/
def Update.value? (cell : Cell) : Update → Option Value
  | .setValue record field value => if cell = (record, field) then some value else none
  | _ => none

/-- The targets that an update gives to a link field of a record, none of them to clear it. -/
def Update.targets? (cell : Cell) : Update → Option (List RecordId)
  | .setLinks record link targets => if cell = (record, link) then some targets else none
  | _ => none

theorem fieldValue_update (cell : Cell) (u : Update) :
    (store.update u).fieldValue cell.1 cell.2 =
      (u.value? cell).getD (store.fieldValue cell.1 cell.2) := by
  cases u with
  | setValue record field value =>
    rw [update, fieldValue_setValue, Update.value?]
    split <;> rfl
  | addRecord table | setLinks record link targets => rfl

theorem linkedRecords_update (cell : Cell) (u : Update) :
    (store.update u).linkedRecords cell.1 cell.2 =
      (u.targets? cell).getD (store.linkedRecords cell.1 cell.2) := by
  cases u with
  | setLinks record link targets =>
    rw [update, linkedRecords_setLinks, Update.targets?]
    split <;> rfl
  | addRecord table | setValue record field value => rfl

/-- If what is read after one update is what that update gives, or what was read before if it gives
nothing, then what is read after many is what was given last, or what is read of the empty store. -/
theorem read_updated {α : Type} (read : Store → α) (given? : Update → Option α)
    (hupdate : ∀ s u, read (s.update u) = (given? u).getD (read s)) (updates : List Update) :
    read (updated updates) = (updates.findSome? given?).getD (read empty) := by
  induction updates with
  | nil => rfl
  | cons latest earlier ih =>
    rw [updated, hupdate, ih, List.findSome?_cons]
    cases given? latest <;> rfl

/-- After any updates, a record leads to another through a link field exactly if it is found among
those that lead there; these ascend strictly; and of a field is read what was stored in it last, a
null or no links if that was never done. -/
theorem updates_read_back (updates : List Update) :
    (∀ link record target, record ∈ (updated updates).recordsLinkingTo link target ↔
      target ∈ (updated updates).linkedRecords record link) ∧
    (∀ link target,
      ((updated updates).recordsLinkingTo link target).Pairwise (·.index < ·.index)) ∧
    (∀ record link, (updated updates).linkedRecords record link =
      (updates.findSome? (·.targets? (record, link))).getD []) ∧
    ∀ record field, (updated updates).fieldValue record field =
      (updates.findSome? (·.value? (record, field))).getD .null :=
  ⟨fun _ _ _ => mem_recordsLinkingTo, pairwise_recordsLinkingTo,
    fun record link => read_updated (·.linkedRecords record link) (·.targets? (record, link))
      (fun _ => linkedRecords_update (record, link)) updates,
    fun record field => read_updated (·.fieldValue record field) (·.value? (record, field))
      (fun _ => fieldValue_update (record, field)) updates⟩

/-- A record that names another twice and itself once, and a link that is emptied again. -/
example : (updated [.setLinks ⟨0⟩ ⟨7⟩ [], .setLinks ⟨1⟩ ⟨7⟩ [⟨0⟩, ⟨1⟩, ⟨0⟩],
    .setLinks ⟨0⟩ ⟨7⟩ [⟨0⟩]]).recordsLinkingTo ⟨7⟩ ⟨0⟩ = [⟨1⟩] := by decide

end ComputedFields.Store
