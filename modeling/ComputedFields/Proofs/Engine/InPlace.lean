import ComputedFields.Engine.Definition
import ComputedFields.Engine.Recomputation
import ComputedFields.Proofs.Graph.Acyclic
import ComputedFields.Proofs.Steps

/-!
# Calls in place

Every call of an engine carried out step by step on the engine itself, with each check and each
write in its place. What has been written before a step fails stays written, so it takes a proof
that a call that fails has written nothing: the checks come first, through all that a call calls.
-/

namespace ComputedFields

/-! ## Schemas -/

/-- Adds a field to a schema in place. -/
def Schema.addFieldInPlace (table : TableId) (name : String) (kind : FieldKind) :
    Steps Schema SchemaError FieldId := do
  if let some missing := (← get).missingTable? table kind then
    throw (.unknownTable missing)
  let name := Text.trim name
  if name.isEmpty || maxNameBytes < name.utf8ByteSize then
    throw (.invalidFieldName name)
  if ((← get).fieldByName? table name).isSome then
    throw (.duplicateFieldName table name)
  let f : FieldId := ⟨(← get).fields.length⟩
  modify fun s => { s with fields := s.fields ++ [⟨f, table, name, kind⟩] }
  return f

theorem Schema.run_addFieldInPlace (s : Schema) (table : TableId) (name : String)
    (kind : FieldKind) : (addFieldInPlace table name kind).run s =
      Steps.allOrNothing s ((s.addField table name kind).map Prod.swap) := by
  rw [addField, addFieldInPlace]
  cases hmissing : s.missingTable? table kind with
  | some missing => simp [hmissing, Steps.allOrNothing, Except.map]
  | none =>
    by_cases hname : (Text.trim name).isEmpty || maxNameBytes < (Text.trim name).utf8ByteSize
    · simp [hmissing, hname, Steps.allOrNothing, Except.map]
    · cases hfield : (s.fieldByName? table (Text.trim name)).isSome <;>
        simp [hmissing, hname, hfield, Steps.allOrNothing, Except.map]

/-! ## Graphs -/

namespace DependencyGraph

/-- A field must not come to read itself. -/
def checkCycle (f : FieldId) (precedents : List FieldId) (g : DependencyGraph) :
    Except FormulaError Unit :=
  match g.findCycle f precedents with
  | some path => .error (.circularDependency path)
  | none => .ok ()

/-- Writes down that a field reads along some edges, which lead to some fields. -/
def writeReads (f : FieldId) (newEdges : List Edge) (newFields : List FieldId) :
    Steps DependencyGraph FormulaError DependencyDiff := do
  modify (·.register f)
  forM newFields fun p => modify (·.register p)
  let oldEdges := (← get).edgesFrom f
  let oldFields := oldEdges.map (·.1)
  forM (oldEdges.filter (!newEdges.contains ·)) fun edge =>
    modify fun g => { g with readers := dropReader f g.readers edge }
  forM (newEdges.filter (!oldEdges.contains ·)) fun edge =>
    modify fun g => { g with readers := addReader f g.readers edge }
  let added := newFields.filter (!oldFields.contains ·)
  let removed := (← get).sorted (oldFields.filter (!newFields.contains ·))
  modify fun g => { g with reads := g.reads.set f newEdges }
  return { added, removed }

/-- Makes a field read exactly what the references say, in place. -/
def setReadsInPlace (f : FieldId) (references : List Reference) :
    Steps DependencyGraph FormulaError DependencyDiff := do
  let newFields := (← get).sorted ((edgesOf references).map (·.1))
  Steps.look (checkCycle f newFields)
  writeReads f (edgesOf references) newFields

/-- Takes a field's formula away in place. -/
def removeReadsInPlace (f : FieldId) : Steps DependencyGraph FormulaError (List FieldId) := do
  let edges := (← get).edgesFrom f
  modify fun g => { g with reads := g.reads.erase f }
  forM edges fun edge => modify fun g => { g with readers := dropReader f g.readers edge }
  return (← get).dependentFields f

/-- Changing only what fields are read by, for one edge after the other. -/
theorem foldl_readers (change : Entries FieldId (List Edge) → Edge → Entries FieldId (List Edge))
    (edges : List Edge) (g : DependencyGraph) :
    edges.foldl (fun g edge => { g with readers := change g.readers edge }) g =
      { g with readers := edges.foldl change g.readers } := by
  induction edges generalizing g with
  | nil => rfl
  | cons edge edges ih => exact ih _

theorem run_setReadsInPlace (g : DependencyGraph) (f : FieldId) (references : List Reference) :
    (setReadsInPlace f references).run g =
      Steps.allOrNothing g ((g.setReads f references).map Prod.swap) := by
  rw [setReads, setReadsInPlace]
  simp only [EStateM.run_bind, EStateM.run_get, Steps.run_look, checkCycle]
  generalize g.sorted ((edgesOf references).map (·.1)) = newFields
  cases g.findCycle f newFields with
  | some path => rfl
  | none =>
    -- Registering changes no edges, so the edges read afterwards are those from before.
    generalize hregistered : newFields.foldl register (g.register f) = registered
    have hrun : (forM newFields fun p =>
        (modify (·.register p) : Steps DependencyGraph FormulaError PUnit)).run (g.register f) =
          .ok ⟨⟩ registered :=
      (Steps.run_forM (fun p g => g.register p) newFields (g.register f)).trans
        (by rw [← hregistered])
    have hreads : registered.reads = g.reads := by
      rw [← hregistered, reads_foldl_register, reads_register]
    have hreaders : registered.readers = g.readers := by
      rw [← hregistered, readers_foldl_register, readers_register]
    have hfrom : registered.edgesFrom f = g.edgesFrom f := by rw [edgesFrom, hreads, edgesFrom]
    have hsorted (reads readers : Entries FieldId (List Edge)) :
        sorted ⟨registered.order, reads, readers⟩ = registered.sorted := rfl
    simp only [Steps.allOrNothing, Except.map, Prod.swap, writeReads, EStateM.run_bind,
      EStateM.run_get, EStateM.run_modify, EStateM.run_pure, Steps.run_forM, hrun, hreads,
      hreaders, hfrom, hsorted, foldl_readers]

theorem run_removeReadsInPlace (g : DependencyGraph) (f : FieldId) :
    (removeReadsInPlace f).run g = Steps.allOrNothing g (.ok (g.removeReads f).swap) := by
  simp [removeReadsInPlace, removeReads, foldl_readers, Steps.allOrNothing]

end DependencyGraph

/-! ## Engines -/

namespace Engine

variable {ε α : Type}

/-- Steps on the schema of an engine. -/
def onSchema (x : Steps Schema ε α) : Steps Engine ε α :=
  Steps.within Engine.schema (fun e schema => { e with schema }) x

/-- Steps on the graph of an engine. -/
def onGraph (x : Steps DependencyGraph ε α) : Steps Engine ε α :=
  Steps.within Engine.graph (fun e graph => { e with graph }) x

/-- Adds a field in place. -/
def addFieldInPlace (table : TableId) (name : String) (kind : FieldKind) :
    Steps Engine SchemaError FieldId := do
  let f ← onSchema (Schema.addFieldInPlace table name kind)
  onGraph (modify (·.register f))
  return f

/-- Gives a formula field a formula in place. -/
def registerInPlace (f : FieldId) (formula : Formula) :
    Steps Engine FormulaError DependencyDiff := do
  if !(← get).schema.isFormula f then
    throw (.noFormula f)
  let some field := (← get).schema.field? f
    | throw (.noFormula f)
  Steps.look fun e => checkReferences e.schema field.table formula.references
  let diff ← onGraph (DependencyGraph.setReadsInPlace f formula.references)
  modify fun e => { e with formulas := e.formulas.set f formula }
  modify fun e => { e with cache := e.dropStale e.graph f }
  return diff

/-- Gives a formula field the formula that a source text describes, in place. -/
def defineInPlace (f : FieldId) (source : String) : Steps Engine FormulaError DependencyDiff := do
  let some field := (← get).schema.field? f
    | throw (.noFormula f)
  let formula ← Steps.look (·.compile field.table source)
  registerInPlace f formula

/-- Takes a field's formula away in place. The formula is gone before the call looks whether there
was one. -/
def removeInPlace (f : FieldId) : Steps Engine FormulaError (List FieldId) := do
  let formula := (← get).formulas.get? f
  modify fun e => { e with formulas := e.formulas.erase f }
  if formula.isNone then
    throw (.noFormula f)
  let stale := f :: (← get).graph.transitiveDependents [f]
  let readers ← onGraph (DependencyGraph.removeReadsInPlace f)
  modify fun e => { e with cache := (e.cache.invalidateFields stale).1 }
  return readers

/-- Computes all that a change of a stored value or link may change, in place. -/
def changedInPlace (record : RecordId) (f : FieldId) (value : Value) :
    Steps Engine FormulaError Batch := do
  if (← get).hasFormula f then
    throw (.notASourceField f)
  let cells ← Steps.look (·.plan (record, f))
  modifyGet fun e => e.inSession do
    modify (·.settle (record, f) value)
    e.run cells

/-- Computes all formula fields of one record in place. -/
def recomputeInPlace (table : TableId) (record : RecordId) : Steps Engine FormulaError Batch := do
  let fields ← Steps.look (·.tableFormulas table)
  Steps.look (·.checkBatch fields.length)
  modifyGet (·.recomputeFields fields record)

/-- Computes all formula fields of several records of a table, in place. -/
def recomputeManyInPlace (table : TableId) (records : List RecordId) :
    Steps Engine FormulaError Batch := do
  let fields ← Steps.look (·.tableFormulas table)
  Steps.look (·.checkBatch (fields.length * records.length))
  let batches ← records.mapM fun record => modifyGet (·.recomputeFields fields record)
  return batches.flatten

/-! ### Outcomes -/

section

variable (e : Engine) (table : TableId) (record : RecordId) (f : FieldId)

theorem run_onGraph {x : Steps DependencyGraph ε α} {outcome : Except ε (α × DependencyGraph)}
    (h : x.run e.graph = Steps.allOrNothing e.graph outcome) :
    (onGraph x).run e =
      Steps.allOrNothing e (outcome.map fun (a, graph) => (a, { e with graph })) :=
  Steps.run_within Engine.graph (fun e graph => { e with graph }) (fun _ => rfl) h

theorem run_addFieldInPlace (name : String) (kind : FieldKind) :
    (addFieldInPlace table name kind).run e =
      Steps.allOrNothing e ((e.addField table name kind).map Prod.swap) := by
  have hschema := Steps.run_within Engine.schema (fun e schema => { e with schema })
    (fun _ => rfl) (Schema.run_addFieldInPlace e.schema table name kind)
  have hwrites := Steps.run_bind_of_ok (fun (f, e) =>
    (f, { e with graph := e.graph.register f })) hschema fun _ _ => rfl
  refine hwrites.trans ?_
  rw [addField]
  cases e.schema.addField table name kind <;> rfl

theorem run_registerInPlace (formula : Formula) :
    (registerInPlace f formula).run e =
      Steps.allOrNothing e ((e.register f formula).map Prod.swap) := by
  rw [registerInPlace, register, formulaTable?]
  cases hformula : e.schema.isFormula f with
  | false => simp [hformula, Steps.allOrNothing, Except.map]
  | true =>
    cases hfield : e.schema.field? f with
    | none => simp [hformula, hfield, Steps.allOrNothing, Except.map]; rfl
    | some field =>
      have hgraph := e.run_onGraph
        (DependencyGraph.run_setReadsInPlace e.graph f formula.references)
      simp only [EStateM.run_bind get, EStateM.run_get, hformula, Bool.not_true,
        Bool.false_eq_true, if_false, if_true, hfield, Option.map_some]
      have hwrites := Steps.run_bind_of_ok (fun written =>
        (written.1, { written.2 with
          formulas := written.2.formulas.set f formula
          cache := written.2.dropStale written.2.graph f })) hgraph fun _ _ => rfl
      refine (Steps.run_look_bind fun _ _ => hwrites).trans ?_
      cases checkReferences e.schema field.table formula.references
      · rfl
      · cases e.graph.setReads f formula.references <;> rfl

theorem run_defineInPlace (source : String) :
    (defineInPlace f source).run e =
      Steps.allOrNothing e ((e.define f source).map Prod.swap) := by
  rw [defineInPlace, define]
  cases hfield : e.schema.field? f with
  | none => simp [hfield, Steps.allOrNothing, Except.map]; rfl
  | some field =>
    simp only [EStateM.run_bind get, EStateM.run_get, hfield]
    refine (Steps.run_look_bind fun formula _ => e.run_registerInPlace f formula).trans ?_
    cases e.compile field.table source <;> rfl

theorem run_removeInPlace :
    (removeInPlace f).run e = Steps.allOrNothing e ((e.remove f).map Prod.swap) := by
  rw [removeInPlace, remove]
  cases hformula : e.hasFormula f with
  | false =>
    have hnone := Entries.contains_eq_false.mp hformula
    simp [hnone, Entries.erase_of_absent hformula, Steps.allOrNothing, Except.map]
  | true =>
    obtain ⟨formula, hsome⟩ := Option.isSome_iff_exists.mp hformula
    have hgraph (e : Engine) := e.run_onGraph (DependencyGraph.run_removeReadsInPlace e.graph f)
    simp [hsome, hgraph, Steps.allOrNothing, Except.map, dropStale]

theorem run_changedInPlace (value : Value) :
    (changedInPlace record f value).run e = Steps.allOrNothing e (e.changed record f value) := by
  rw [changedInPlace, changed]
  cases hformula : e.hasFormula f with
  | true => simp [hformula, Steps.allOrNothing]
  | false =>
    simp only [EStateM.run_bind get, EStateM.run_get, hformula, Bool.false_eq_true, if_false]
    exact Steps.run_look_bind fun _ _ => rfl

theorem run_recomputeInPlace :
    (recomputeInPlace table record).run e = Steps.allOrNothing e (e.recompute table record) :=
  Steps.run_look_bind fun _ _ => Steps.run_look_bind fun _ _ => rfl

/-- One record after the other, each on what the ones before it have left. -/
theorem run_mapM_recomputeFields (fields : List FieldId) (records : List RecordId) :
    (do
      let batches ← records.mapM fun record => modifyGet (·.recomputeFields fields record)
      return batches.flatten : Steps Engine FormulaError Batch).run e =
      .ok (e.recomputeEach fields records).1 (e.recomputeEach fields records).2 := by
  induction records generalizing e with
  | nil => rfl
  | cons record records ih =>
    have hrest := ih (e.recomputeFields fields record).2
    simp only [List.mapM_cons, EStateM.run_bind, EStateM.run_modifyGet, EStateM.run_pure] at hrest ⊢
    cases hrun : (records.mapM fun record =>
        (modifyGet (·.recomputeFields fields record) : Steps Engine FormulaError Batch)).run
          (e.recomputeFields fields record).2 with
    | error err e' => rw [hrun] at hrest; cases hrest
    | ok batches e' =>
      rw [hrun] at hrest
      obtain ⟨hbatch, rfl⟩ := EStateM.Result.ok.inj hrest
      change EStateM.Result.ok ((e.recomputeFields fields record).1 ++ batches.flatten) _ = _
      rw [hbatch]
      rfl

theorem run_recomputeManyInPlace (records : List RecordId) :
    (recomputeManyInPlace table records).run e =
      Steps.allOrNothing e (e.recomputeMany table records) :=
  Steps.run_look_bind fun fields _ => Steps.run_look_bind fun _ _ =>
    e.run_mapM_recomputeFields fields records

end

/-! ### All calls -/

/-- A call that may fail, by the errors and the answers that it has. -/
inductive Call : Type → Type → Type where
  | addField (table : TableId) (name : String) (kind : FieldKind) : Call SchemaError FieldId
  | compile (table : TableId) (source : String) : Call FormulaError Formula
  | define (f : FieldId) (source : String) : Call FormulaError DependencyDiff
  | register (f : FieldId) (formula : Formula) : Call FormulaError DependencyDiff
  | remove (f : FieldId) : Call FormulaError (List FieldId)
  | changed (record : RecordId) (f : FieldId) (value : Value) : Call FormulaError Batch
  | recompute (table : TableId) (record : RecordId) : Call FormulaError Batch
  | recomputeMany (table : TableId) (records : List RecordId) : Call FormulaError Batch
  | orderCells (cells : List Cell) : Call FormulaError (List Cell)

/-- What a call answers, and the engine that it makes of one. -/
def Call.answer (e : Engine) : Call ε α → Except ε (α × Engine)
  | .addField table name kind => (e.addField table name kind).map Prod.swap
  | .compile table source => (e.compile table source).map (·, e)
  | .define f source => (e.define f source).map Prod.swap
  | .register f formula => (e.register f formula).map Prod.swap
  | .remove f => (e.remove f).map Prod.swap
  | .changed record f value => e.changed record f value
  | .recompute table record => e.recompute table record
  | .recomputeMany table records => e.recomputeMany table records
  | .orderCells cells => (e.orderCells cells).map (·, e)

/-- A call carried out in place. -/
def Call.inPlace : Call ε α → Steps Engine ε α
  | .addField table name kind => addFieldInPlace table name kind
  | .compile table source => Steps.look (·.compile table source)
  | .define f source => defineInPlace f source
  | .register f formula => registerInPlace f formula
  | .remove f => removeInPlace f
  | .changed record f value => changedInPlace record f value
  | .recompute table record => recomputeInPlace table record
  | .recomputeMany table records => recomputeManyInPlace table records
  | .orderCells cells => Steps.look (·.orderCells cells)

theorem Call.run_inPlace (call : Call ε α) (e : Engine) :
    call.inPlace.run e = Steps.allOrNothing e (call.answer e) := by
  cases call with
  | addField table name kind => exact e.run_addFieldInPlace table name kind
  | compile table source => exact Steps.run_look _ e
  | define f source => exact e.run_defineInPlace f source
  | register f formula => exact e.run_registerInPlace f formula
  | remove f => exact e.run_removeInPlace f
  | changed record f value => exact e.run_changedInPlace record f value
  | recompute table record => exact e.run_recomputeInPlace table record
  | recomputeMany table records => exact e.run_recomputeManyInPlace table records
  | orderCells cells => exact Steps.run_look _ e

/-- A call that fails leaves the engine exactly as it was: its schema, formulas, graph and cache.
It fails in place when and as the call without writes in place does, and when it does not fail it
leaves the engine that the latter gives. -/
theorem failed_call_changes_nothing (call : Call ε α) (e : Engine) :
    (∀ err e', call.inPlace.run e = .error err e' ↔ e' = e ∧ call.answer e = .error err) ∧
      ∀ a e', call.inPlace.run e = .ok a e' ↔ call.answer e = .ok (a, e') := by
  rw [call.run_inPlace e]
  rcases call.answer e with err | ⟨a, e'⟩ <;>
    simp [Steps.allOrNothing, eq_comm, and_comm]

end Engine

end ComputedFields
