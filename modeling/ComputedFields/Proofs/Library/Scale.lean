import ComputedFields.Proofs.Library.Coercions

/-!
# Functions without regard to scale

Every function of the library gives the same value, but for the way in which its numbers are
written, if its arguments are put into their shortest form first.
-/

namespace ComputedFields

open Value

namespace Value

/-! ## The shortest form of an argument -/

theorem alike_normalize (a : Value) : Alike a a.normalize :=
  ⟨(asText_normalize a).symm, agree_toNumber a, (toBool_normalize a).symm,
    (toDate_normalize a).symm⟩

theorem alikeItem_normalize (a : Value) : AlikeItem a a.normalize :=
  ⟨alike_normalize a, (isBlank_normalize a).symm, by cases a <;> rfl, (error?_normalize a).symm⟩

theorem alikeArgument_normalize (a : Value) : AlikeArgument a a.normalize where
  toAlike := alike_normalize a
  items := by
    show List.Forall₂ AlikeItem (flatten [a]) (flatten ([a].map normalize))
    rw [flatten_map_normalize, List.forall₂_map_right_iff, List.forall₂_same]
    exact fun item _ => alikeItem_normalize item

end Value

namespace Library

variable {f : Function} {args args' : List Value}

theorem addedSpan?_normalize (args : List Value) :
    addedSpan? (args.map normalize) = addedSpan? args := by
  match args with
  | [] | [_] => rfl
  | a :: b :: rest => cases b <;> cases rest <;> rfl

/-! ## Functions that see errors -/

theorem agree_ifError (a b : Value) :
    Agree SameValue (ifError [a, b]) (ifError [a.normalize, b.normalize]) := by
  have herror : firstError? [a.normalize] = firstError? [a] := firstError?_normalize [a]
  rw [ifError, ifError, herror]
  refine .ok ?_
  split
  · exact b.normalize_normalize.symm
  · exact a.normalize_normalize.symm

theorem isError_normalize (a : Value) : Library.isError [a.normalize] = Library.isError [a] :=
  congrArg (fun error => Except.ok (Value.boolean (Option.isSome error)))
    (firstError?_normalize [a])

theorem agree_run_absorbing : ∀ f ∈ functions, f.errors = .absorb → ∀ now args,
    f.accepts args.length = true →
      Agree SameValue (f.run now args) (f.run now (args.map normalize)) := by
  simp only [functions, List.forall_mem_cons, List.not_mem_nil, reduceCtorEq, false_implies,
    implies_true, true_implies, true_and, and_true]
  refine ⟨fun _ args haccepts => ?_, fun _ args haccepts => ?_, fun _ args haccepts => ?_⟩
  · obtain ⟨a, b, rfl⟩ := exists_pair rfl rfl haccepts
    exact agree_ifError a b
  · obtain ⟨a, rfl⟩ := exists_single rfl rfl haccepts
    exact agree_of_eq (by simp only [isBlank, List.map_cons, List.map_nil, isBlank_normalize])
  · obtain ⟨a, rfl⟩ := exists_single rfl rfl haccepts
    exact agree_of_eq (isError_normalize a).symm

theorem agree_run_normalize (hf : f ∈ functions) (now : Calendar.DateTime)
    (haccepts : f.accepts args.length = true) :
    Agree SameValue (f.run now args) (f.run now (args.map normalize)) := by
  cases herrors : f.errors with
  | propagate =>
    have hargs : List.Forall₂ AlikeArgument args (args.map normalize) :=
      List.forall₂_map_right_iff.mpr (List.forall₂_same.mpr fun a _ => alikeArgument_normalize a)
    exact coerces_of_mem f hf herrors now args _ haccepts hargs fun _ =>
      (addedSpan?_normalize args).symm
  | absorb => exact agree_run_absorbing f hf herrors now args haccepts

theorem sameValue_apply_normalize (hf : f ∈ functions) (now : Calendar.DateTime)
    (haccepts : f.accepts args.length = true) :
    SameValue (f.apply now args) (f.apply now (args.map normalize)) := by
  have hrun := agree_run_normalize hf now haccepts
  rw [Function.apply, Function.apply, firstError?_normalize]
  cases f.errors <;> cases firstError? args <;>
    first | exact SameValue.refl _ | exact sameValue_ofResult hrun

/-- A call gives the same value for arguments that are the same. -/
theorem sameValue_apply (hf : f ∈ functions) (now : Calendar.DateTime)
    (haccepts : f.accepts args.length = true) (h : args.map normalize = args'.map normalize) :
    SameValue (f.apply now args) (f.apply now args') := by
  have hlength : args.length = args'.length := by
    simpa only [List.length_map] using congrArg List.length h
  have hleft := sameValue_apply_normalize hf now haccepts
  rw [h] at hleft
  exact hleft.trans (sameValue_apply_normalize hf now (hlength ▸ haccepts)).symm

end Library

end ComputedFields
