import ComputedFields.Engine.Resolution

/-! Recomputation. A change of a stored value or link is followed to every cell whose value it
may change, and these are computed in an order in which each comes after those it reads. -/

namespace ComputedFields

/-- A cell computed in a batch, with its value. -/
structure Recomputed where
  record : RecordId
  field : FieldId
  value : Value
deriving DecidableEq

/-- The cells computed in a batch, in the order in which they were computed. -/
abbrev Batch := List Recomputed

namespace Batch

/-- The fields of one record, with their values. -/
def forRecord (batch : Batch) (record : RecordId) : List (FieldId × Value) :=
  (batch.filter (·.record = record)).map fun r => (r.field, r.value)

/-- Whether a cell is in the batch. -/
def covers (batch : Batch) (record : RecordId) (f : FieldId) : Bool :=
  batch.any fun r => r.record = record && r.field = f

end Batch

namespace Engine

/-! ## Order -/

/-- Puts cells into an order in which each comes after those it may read: by the place of their
field in the schedule of all fields among them, and then by record. -/
def orderCells (e : Engine) (cells : List Cell) : Except FormulaError (List Cell) :=
  (e.graph.schedule (cells.map (·.2))).map fun fields =>
    Ordered.sort
      (fun a b =>
        (Ord.compare (fields.idxOf a.2) (fields.idxOf b.2)).then (a.1.compare b.1)) cells

/-- The formula fields of a table that have a formula, each after those it reads. -/
def tableFormulas (e : Engine) (table : TableId) : Except FormulaError (List FieldId) :=
  e.graph.schedule (((e.schema.fieldsIn table).map (·.id)).filter e.hasFormula)

/-- The bound on the number of cells. -/
def checkBatch (e : Engine) (actual : Nat) : Except FormulaError Unit :=
  if e.options.maxBatchSize < actual then
    .error (.limitExceeded .batch e.options.maxBatchSize actual)
  else .ok ()

/-! ## Plan -/

/-- The formula cells that read a cell. -/
def readingCells (e : Engine) (cell : Cell) : List Cell :=
  (e.graph.dependents cell.2).flatMap fun (f, kind) =>
    if e.graph.isFormula f then
      match kind with
      | .direct => [(cell.1, f)]
      | .via link => (e.store.recordsLinkingTo link cell.1).map fun record => (record, f)
    else []

/-- The cells that a change of a cell may change, in the order in which to compute them. -/
def plan (e : Engine) (cell : Cell) : Except FormulaError (List Cell) :=
  match reach? e.readingCells e.options.maxBatchSize [cell] with
  | some cells => e.orderCells cells
  | none =>
    .error (.limitExceeded .batch e.options.maxBatchSize (e.options.maxBatchSize + 1))

/-! ## Computation -/

/-- Computes cells one after the other, each for all that follow. -/
def run (e : Engine) : List Cell → StateM Session Batch
  | [] => pure []
  | cell :: cells =>
    match e.formula? cell.2 with
    | none => run e cells
    | some formula => do
      let value ← e.compute .cached cell.1 formula.root
      modify (·.record cell value)
      let rest ← run e cells
      pure (⟨cell.1, cell.2, value⟩ :: rest)

/-- Computes all that a change of a stored value or link may change. `value` is what the field
holds from then on, whether or not it is stored yet. -/
def changed (e : Engine) (record : RecordId) (f : FieldId) (value : Value) :
    Except FormulaError (Batch × Engine) :=
  if e.hasFormula f then .error (.notASourceField f)
  else do
    let cells ← e.plan (record, f)
    return e.inSession do
      modify (·.settle (record, f) value)
      e.run cells

/-- Computes some fields of a record, in this order. -/
def recomputeFields (e : Engine) (fields : List FieldId) (record : RecordId) : Batch × Engine :=
  e.inSession (e.run (fields.map fun f => (record, f)))

/-- Computes some fields of several records, one record after the other. -/
def recomputeEach (e : Engine) (fields : List FieldId) : List RecordId → Batch × Engine
  | [] => ([], e)
  | record :: records =>
    let (first, e) := e.recomputeFields fields record
    let (rest, e) := recomputeEach e fields records
    (first ++ rest, e)

/-- Computes all formula fields of one record. -/
def recompute (e : Engine) (table : TableId) (record : RecordId) :
    Except FormulaError (Batch × Engine) := do
  let fields ← e.tableFormulas table
  e.checkBatch fields.length
  return e.recomputeFields fields record

/-- Computes all formula fields of several records of a table. -/
def recomputeMany (e : Engine) (table : TableId) (records : List RecordId) :
    Except FormulaError (Batch × Engine) := do
  let fields ← e.tableFormulas table
  e.checkBatch (fields.length * records.length)
  return e.recomputeEach fields records

end Engine

end ComputedFields
