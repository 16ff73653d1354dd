import ComputedFields.Proofs.Formula.Scale
import ComputedFields.Proofs.Library.Errors

/-!
# Lookups of one value

A lookup that leads to one record gives a list of one item. Operators, conditions and the functions
that pass errors on take such a list for its item, with one exception: a span of time is added to a
date, without a unit, only if it lies in no list.
-/

namespace ComputedFields

namespace Value

variable {op : BinaryOperator} {value other : Value}

/-- A value that is neither a list nor an error. -/
structure Single (value : Value) : Prop where
  not_list : ∀ items, value ≠ .list items
  not_error : value.error? = none

/-! ## Coercions and operators -/

theorem Single.flatten (h : value.Single) : flatten [value] = [value] := by
  cases value with
  | list items => exact absurd rfl (h.not_list items)
  | _ => rfl

theorem Single.asText (h : value.Single) : (Value.list [value]).asText = value.asText := by
  have hfirst : firstError? [value] = none := by
    rw [firstError?, h.flatten, List.findSome?_singleton, h.not_error]
  rw [Value.asText, hfirst]
  cases value with
  | list items => exact absurd rfl (h.not_list items)
  | error kind => cases h.not_error
  | _ => rfl

/-- A list of one item counts as the item. -/
theorem Single.alike (h : value.Single) : AlikeArgument value (.list [value]) where
  asText := h.asText.symm
  toNumber := agreeNumber_refl _
  toBool := rfl
  toDate := rfl
  items := by
    rw [h.flatten]
    exact .cons (.refl value) .nil

theorem applyNegate_singleton (value : Value) :
    (Value.list [value]).applyNegate = value.applyNegate := rfl

theorem Single.applyBinary_left (h : value.Single) :
    applyBinary op (.list [value]) other = applyBinary op value other := by
  rw [applyBinary, applyBinary, h.not_error, concat, concat, h.asText]
  rfl

theorem Single.applyBinary_right (h : value.Single) :
    applyBinary op other (.list [value]) = applyBinary op other value := by
  rw [applyBinary, applyBinary, h.not_error, concat, concat, h.asText]
  rfl

end Value

namespace Library

open Value

variable {f : Function} {before after : List Value} {value : Value} {now : Calendar.DateTime}

/-! ## Calls -/

/-- A call that adds a span of time to a date. -/
structure AddsSpan (f : Function) (before : List Value) (value : Value) (after : List Value) :
    Prop where
  name : f.name = "DATE_ADD"
  date : ∃ a d, before = [a] ∧ a.toDate = .ok d
  span : ∃ span, value = .duration span
  last : after = []

theorem dateAdd_of_mem : ∀ f ∈ functions, f.name = "DATE_ADD" →
    f.minArgs = 2 ∧ f.maxArgs = some 3 ∧ f.errors = .propagate ∧ f.run = fun _ => dateAdd := by
  simp [functions]

theorem AddsSpan.accepts (hf : f ∈ functions) (h : AddsSpan f before value after) :
    f.accepts (before ++ value :: after).length = true := by
  obtain ⟨hname, ⟨a, d, rfl, -⟩, -, rfl⟩ := h
  obtain ⟨hmin, hmax, -, -⟩ := dateAdd_of_mem f hf hname
  rw [Function.accepts, hmin, hmax]
  rfl

/-- Only as the second of two arguments a span of time counts as one. -/
theorem addedSpan?_singleton
    (h : before.length = 1 → after = [] → ∀ span, value ≠ .duration span) :
    addedSpan? (before ++ value :: after) = addedSpan? (before ++ .list [value] :: after) := by
  match before, after with
  | [], [] => rfl
  | [], b :: rest => cases b <;> cases rest <;> rfl
  | [a], [] =>
    cases value with
    | duration span => exact absurd rfl (h rfl rfl span)
    | _ => rfl
  | [a], _ :: _ => cases value <;> rfl
  | a :: b :: rest, _ =>
    have hlonger (values : List Value) (hne : values ≠ []) :
        addedSpan? (a :: b :: values) = none := by
      obtain ⟨c, cs, rfl⟩ := List.exists_cons_of_ne_nil hne
      cases b <;> rfl
    rw [List.cons_append, List.cons_append, List.cons_append, List.cons_append,
      hlonger _ (by simp), hlonger _ (by simp)]

theorem alike_singleton (h : value.Single) :
    List.Forall₂ AlikeArgument (before ++ value :: after) (before ++ .list [value] :: after) :=
  have hsame (values : List Value) : List.Forall₂ AlikeArgument values values :=
    List.forall₂_same.mpr fun value _ => .refl value
  List.rel_append (hsame before) (.cons h.alike (hsame after))

theorem agree_run_singleton (hf : f ∈ functions) (herrors : f.errors = .propagate)
    (h : value.Single) (haccepts : f.accepts (before ++ value :: after).length = true)
    (hnot : ¬ AddsSpan f before value after) :
    Agree SameValue (f.run now (before ++ value :: after))
      (f.run now (before ++ .list [value] :: after)) := by
  by_cases hspan : f.name = "DATE_ADD" ∧ before.length = 1 ∧ after = [] ∧
      ∃ span, value = .duration span
  · -- there is no date that the span of time could be added to
    obtain ⟨hname, hbefore, rfl, span, rfl⟩ := hspan
    obtain ⟨a, rfl⟩ := List.length_eq_one_iff.mp hbefore
    obtain ⟨-, -, -, hrun⟩ := dateAdd_of_mem f hf hname
    cases hdate : a.toDate with
    | ok d => exact absurd ⟨hname, ⟨a, d, rfl, hdate⟩, ⟨span, rfl⟩, rfl⟩ hnot
    | error kind =>
      rw [hrun]
      show Agree SameValue (dateAdd [a, .duration span]) (dateAdd [a, .list [.duration span]])
      rw [dateAdd_eq, dateAdd_eq, hdate]
      exact .error kind
  · refine coerces_of_mem f hf herrors now _ _ haccepts (alike_singleton h) fun hname => ?_
    exact addedSpan?_singleton fun hbefore hafter span hvalue =>
      hspan ⟨hname, hbefore, hafter, span, hvalue⟩

/-- A span of time in a list is no number of units either. -/
theorem not_same_of_addsSpan (hf : f ∈ functions) (h : value.Single)
    (hadds : AddsSpan f before value after) :
    (f.apply now (before ++ .list [value] :: after)).same
      (f.apply now (before ++ value :: after)) = false := by
  obtain ⟨hname, ⟨a, d, rfl, hdate⟩, ⟨span, rfl⟩, rfl⟩ := hadds
  obtain ⟨-, -, herrors, hrun⟩ := dateAdd_of_mem f hf hname
  have hclean : ¬ a.HoldsError := fun herror => by
    obtain ⟨kind, hkind⟩ := heeds_toDate.fails herror
    rw [hdate] at hkind
    cases hkind
  have hnone : firstError? ([a] ++ .duration span :: []) = none := by
    rw [firstError?_eq_none]
    refine List.forall_mem_cons.mpr ⟨?_, List.forall_mem_singleton.mpr rfl⟩
    exact Bool.eq_false_iff.mpr fun herror => hclean ⟨1, herror⟩
  have hnone' := (firstError?_alike (alike_singleton h)).symm.trans hnone
  rw [Function.apply, Function.apply, herrors, hnone, hnone', hrun]
  show (ofResult (dateAdd [a, .list [.duration span]])).same
    (ofResult (dateAdd [a, .duration span])) = false
  rw [dateAdd_eq, dateAdd_eq, hdate]
  show (Value.error .typeMismatch).same (ofResult (orOverflow (d.add? span) >>= _)) = false
  cases d.add? span <;> rfl

/-- A call gives the same for a list of one item as for the item, unless it adds a span of time. -/
theorem same_apply_singleton (hf : f ∈ functions) (herrors : f.errors = .propagate)
    (h : value.Single) (haccepts : f.accepts (before ++ value :: after).length = true) :
    (f.apply now (before ++ .list [value] :: after)).same
      (f.apply now (before ++ value :: after)) = true ↔ ¬ AddsSpan f before value after := by
  constructor
  · intro hsame hadds
    rw [not_same_of_addsSpan hf h hadds] at hsame
    cases hsame
  · intro hnot
    rw [sameValue_iff, Function.apply, Function.apply, herrors,
      ← firstError?_alike (alike_singleton h)]
    cases firstError? (before ++ value :: after) with
    | some kind => rfl
    | none =>
      exact (sameValue_ofResult (agree_run_singleton hf herrors h haccepts hnot)).symm

end Library

namespace Expr

open Value Library

variable {view : View Id} {now : Calendar.DateTime}

/-- A list of one item may stand wherever its item may, but for a span of time that is added to a
date. -/
theorem eval_singleton {e e' : Expr} {value : Value} (hsingle : value.Single)
    (he : e.eval view now = value) (he' : e'.eval view now = .list [value]) :
    (negate e').eval view now = (negate e).eval view now ∧
    (∀ op other,
      (binary op e' other).eval view now = (binary op e other).eval view now ∧
      (binary op other e').eval view now = (binary op other e).eval view now) ∧
    (∀ yes no, (conditional e' yes no).eval view now = (conditional e yes no).eval view now) ∧
    ∀ name f, find? name = some f → f.errors = .propagate → ∀ before after,
      (((call name (before ++ e' :: after)).eval view now).same
        ((call name (before ++ e :: after)).eval view now) = true ↔
          ¬ AddsSpan f (before.map fun e => e.eval view now) value
            (after.map fun e => e.eval view now)) := by
  refine ⟨?_, fun op other => ⟨?_, ?_⟩, fun yes no => ?_, fun name f hf herrors before after => ?_⟩
  · show (e'.eval view now).applyNegate = (e.eval view now).applyNegate
    rw [he, he', applyNegate_singleton]
  · show applyBinary op (e'.eval view now) _ = applyBinary op (e.eval view now) _
    rw [he, he', hsingle.applyBinary_left]
  · show applyBinary op _ (e'.eval view now) = applyBinary op _ (e.eval view now)
    rw [he, he', hsingle.applyBinary_right]
  · rw [eval_conditional, eval_conditional, he, he']
    rfl
  · have hlength : (before ++ e' :: after).length = (before ++ e :: after).length := by simp
    have hvalues (e : Expr) : (before ++ e :: after).map (fun e => e.eval view now) =
        (before.map fun e => e.eval view now) ++ e.eval view now ::
          after.map fun e => e.eval view now := by
      rw [List.map_append, List.map_cons]
    rw [eval_call, eval_call, hf, hlength, hvalues, hvalues, he, he']
    cases haccepts : f.accepts (before ++ e :: after).length with
    | true =>
      simp only [haccepts, if_true]
      exact same_apply_singleton (mem_of_find? hf) herrors hsingle (by simpa using haccepts)
    | false =>
      simp only [haccepts, Bool.false_eq_true, if_false]
      refine iff_of_true (sameValue_iff.mpr rfl) fun hadds => ?_
      have htakes := hadds.accepts (mem_of_find? hf)
      rw [← he, ← hvalues e, List.length_map, haccepts] at htakes
      cases htakes

/-- A day, as a span of time. -/
def oneDay : Calendar.Duration := ⟨86400000000000, by decide, by decide⟩

theorem single_oneDay : (Value.duration oneDay).Single := ⟨fun _ h => (by cases h), rfl⟩

/-- A day is added to a date if a field holds it, and not if a lookup finds it. -/
theorem dateAdd_lookup_oneDay :
    ((call "DATE_ADD" [literal (.date Library.midsummer), lookup ⟨8⟩ ⟨0⟩]).eval
        (.filled (.duration oneDay)) Library.midsummer).same
      ((call "DATE_ADD" [literal (.date Library.midsummer), field ⟨0⟩]).eval
        (.filled (.duration oneDay)) Library.midsummer) = false :=
  have hitem : (field ⟨0⟩).eval (.filled (.duration oneDay)) Library.midsummer =
    .duration oneDay := rfl
  have hlist : (lookup ⟨8⟩ ⟨0⟩).eval (.filled (.duration oneDay)) Library.midsummer =
    .list [.duration oneDay] := rfl
  have hcalls := (eval_singleton single_oneDay hitem hlist).2.2.2
  have hcall := hcalls "DATE_ADD" _ rfl rfl [literal (.date Library.midsummer)] []
  Bool.eq_false_iff.mpr fun hsame =>
    hcall.mp hsame ⟨rfl, ⟨_, Library.midsummer, rfl, rfl⟩, ⟨oneDay, rfl⟩, rfl⟩

end Expr

end ComputedFields
