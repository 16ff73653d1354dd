import ComputedFields.Proofs.Engine.Histories
import ComputedFields.Proofs.Graph.Downstream

/-!
# What edits of formulas drop

Giving a field a formula and taking it away drop the cached values of the field and of the fields
downstream of it, on every record, and leave the rest of the cache alone. It does not matter that
the one looks for readers after the graph has changed and the other before: both find the same.
-/

namespace ComputedFields

open Relation

namespace Engine

variable {e e' : Engine} {f : FieldId} {formula : Formula}

/-- Of the cache of one engine another has exactly the entries, with their values and versions, of
fields other than a given one that do not read it, directly or through others. Both engines have the
same fields downstream of that field, and the same version is the last. -/
structure Drops (f : FieldId) (e e' : Engine) : Prop where
  kept : ∀ record x entry, e'.cache.get? record x = some entry ↔
    e.cache.get? record x = some entry ∧ x ≠ f ∧ ¬ TransGen e.graph.Reads x f
  downstream : ∀ x, TransGen e'.graph.Reads x f ↔ TransGen e.graph.Reads x f
  clock : e'.cache.clock = e.cache.clock

/-- An engine drops what it should if the graph in which it looks for readers, before the edit or
after it, shows the same fields downstream of the edited one. -/
theorem drops_of_dropStale {graph : DependencyGraph} (hgraph : graph.Mirrored)
    (hstale : ∀ x, TransGen graph.Reads x f ↔ TransGen e.graph.Reads x f)
    (hedit : ∀ x, TransGen e'.graph.Reads x f ↔ TransGen e.graph.Reads x f)
    (hcache : e'.cache = e.dropStale graph f) : Drops f e e' where
  kept record x entry := by
    have hget : (e.dropStale graph f).get? record x = some entry ↔ _ :=
      get?_dropStale hgraph (c := (record, x))
    rw [hcache, hget, hstale, and_comm]
  downstream := hedit
  clock := by rw [hcache]; rfl

theorem drops_register (he : e.Wired) {diff : DependencyDiff}
    (h : e.register f formula = .ok (e', diff)) : Drops f e e' := by
  obtain ⟨own, graph, -, -, -, hset, rfl⟩ := register_ok h
  have hdownstream : ∀ x, TransGen graph.Reads x f ↔ TransGen e.graph.Reads x f :=
    fun x => DependencyGraph.downstream_setReads he.graph.toConsistent hset
  exact drops_of_dropStale (he.graph.setReads hset).mirrored hdownstream hdownstream rfl

theorem drops_remove (he : e.Wired) {readers : List FieldId}
    (h : e.remove f = .ok (e', readers)) : Drops f e e' := by
  obtain rfl := remove_ok h
  exact drops_of_dropStale he.graph.mirrored (fun x => Iff.rfl)
    (fun x => DependencyGraph.downstream_removeReads he.graph.toConsistent) rfl

/-- After any events, defining a formula, registering one and removing one drop exactly the cached
values of the field and of the formula fields that read it, directly or through others. -/
theorem edit_drops_downstream (schema : Schema) (store : Store) (options : EngineOptions)
    (events : List Event) (f : FieldId) :
    let e := history schema store options events
    (∀ source e' diff, e.define f source = .ok (e', diff) → Drops f e e') ∧
    (∀ formula e' diff, e.register f formula = .ok (e', diff) → Drops f e e') ∧
    ∀ e' readers, e.remove f = .ok (e', readers) → Drops f e e' := by
  intro e
  have he : e.Wired := history_wired schema store options events
  refine ⟨fun source e' diff hok => ?_, fun formula e' diff hok => ?_, fun e' readers hok => ?_⟩
  · obtain ⟨formula, hok⟩ := define_ok hok
    exact drops_register he hok
  · exact drops_register he hok
  · exact drops_remove he hok

/-- Prices with labels, and two more formula fields. -/
def tagSchema : Schema where
  tables := ["items"]
  fields := priceSchema.fields ++ [⟨⟨2⟩, ⟨0⟩, "tag", .formula⟩, ⟨⟨3⟩, ⟨0⟩, "copy", .formula⟩]

/-- The label shows the price, the tag shows the label and the copy shows the price again. The tag
of one record is read, and the copy of another. -/
def tagged : List Event :=
  [.operate (.read ⟨1⟩ ⟨3⟩), .operate (.read ⟨0⟩ ⟨2⟩), .operate (.define ⟨3⟩ "{price}"),
    .operate (.define ⟨2⟩ "{label}"), .operate (.define ⟨1⟩ "{price}")]

/-- Removing the label drops it and the tag, and keeps the copy. -/
theorem remove_label_drops : ∃ e' readers,
    (history tagSchema tenStore newYear tagged).remove ⟨1⟩ = .ok (e', readers) ∧
      Drops ⟨1⟩ (history tagSchema tenStore newYear tagged) e' ∧
      (history tagSchema tenStore newYear tagged).cache.entries.keys =
        [(⟨1⟩, ⟨3⟩), (⟨0⟩, ⟨2⟩), (⟨0⟩, ⟨1⟩)] ∧
      e'.cache.entries.keys = [(⟨1⟩, ⟨3⟩)] := by
  obtain ⟨-, -, hremove⟩ := edit_drops_downstream tagSchema tenStore newYear tagged ⟨1⟩
  have hkeys : ((history tagSchema tenStore newYear tagged).remove ⟨1⟩).map
      (·.1.cache.entries.keys) = .ok [(⟨1⟩, ⟨3⟩)] := by cbv
  obtain ⟨⟨e', readers⟩, hok, hleft⟩ := ok_of_map hkeys
  exact ⟨e', readers, hok, hremove e' readers hok, by cbv, hleft⟩

end Engine

end ComputedFields
