import ComputedFields.Engine.State

/-! Values of cells. A formula cell that has no value yet is computed together with all formula
cells without a value that it reads, those first; every value computed is settled for the rest of
the session and kept in the cache. -/

namespace ComputedFields

/-- Where the values of formula cells come from. -/
inductive ReadMode where
  /-- The cache; what it lacks is computed. -/
  | cached
  /-- All are computed anew. -/
  | fresh
deriving DecidableEq, Repr

/-- What is known in the course of one read or one recomputation. -/
structure Session where
  /-- The values that hold for the rest of the session. -/
  settled : Entries Cell Value
  cache : ValueCache

namespace Session

/-- Settles the value of a cell. -/
def settle (s : Session) (cell : Cell) (value : Value) : Session :=
  { s with settled := s.settled.set cell value }

/-- Settles a computed value and keeps it in the cache. -/
def record (s : Session) (cell : Cell) (value : Value) : Session where
  settled := s.settled.set cell value
  cache := (s.cache.insert cell.1 cell.2 value).1

/-- The value of a formula cell that needs no computation. -/
def known? (s : Session) (mode : ReadMode) (cell : Cell) : Option Value :=
  match s.settled.get? cell, mode with
  | some value, _ => some value
  | none, .cached => (s.cache.get? cell.1 cell.2).map (·.value)
  | none, .fresh => none

end Session

namespace Engine

/-- The formula cells that a formula cell reads. -/
def inputs (e : Engine) (cell : Cell) : List Cell :=
  (e.graph.precedents cell.2).flatMap fun (f, kind) =>
    if e.hasFormula f then
      match kind with
      | .direct => [(cell.1, f)]
      | .via link => (e.store.linkedRecords cell.1 link).map fun target => (target, f)
    else []

/-- The value of a cell once all formula cells that matter are known. -/
def look (e : Engine) (mode : ReadMode) (s : Session) (cell : Cell) : Value :=
  match s.settled.get? cell with
  | some value => value
  | none =>
    if e.hasFormula cell.2 then (s.known? mode cell).getD .null
    else e.store.fieldValue cell.1 cell.2

/-- A record whose formula cells that matter are known. -/
def lookView (e : Engine) (mode : ReadMode) (s : Session) (record : RecordId) : View Id where
  fieldValue f := e.look mode s (record, f)
  linkedValues link f :=
    (e.store.linkedRecords record link).map fun target => e.look mode s (target, f)

/-- Computes a formula cell, after all formula cells without a value that it reads. The last
ones are computed first. No chain of reads is longer than `limit`. -/
def resolve (e : Engine) (mode : ReadMode) : Nat → Session → Cell → Session
  | 0, s, _ => s
  | limit + 1, s, cell =>
    match e.formula? cell.2 with
    | none => s
    | some formula =>
      let ready := (e.inputs cell).reverse.foldl
        (fun s input => if (s.known? mode input).isSome then s else resolve e mode limit s input) s
      ready.record cell (formula.root.eval (e.lookView mode ready cell.1) e.options.now)

/-- The value of a cell. A formula cell that has no value yet is left to `again`. -/
def valueOr (e : Engine) (mode : ReadMode) (again : Cell → StateM Session Value) (cell : Cell) :
    StateM Session Value := fun s =>
  match s.settled.get? cell with
  | some value => (value, s)
  | none =>
    if e.hasFormula cell.2 then
      match s.known? mode cell with
      | some value => (value, s)
      | none => again cell s
    else (e.store.fieldValue cell.1 cell.2, s)

/-- A record whose formula cells without a value are left to `again`. -/
def viewOr (e : Engine) (mode : ReadMode) (again : Cell → StateM Session Value)
    (record : RecordId) : View (StateM Session) where
  fieldValue f := e.valueOr mode again (record, f)
  linkedValues link f :=
    (e.store.linkedRecords record link).mapM fun target => e.valueOr mode again (target, f)

/-- Resolving the cell and all that it is computed from, where it is read. -/
def resolving (e : Engine) (mode : ReadMode) (cell : Cell) : StateM Session Value := fun s =>
  let resolved := e.resolve mode e.formulas.size s cell
  ((resolved.settled.get? cell).getD .null, resolved)

/-- The value of a cell. -/
def valueOf (e : Engine) (mode : ReadMode) (cell : Cell) : StateM Session Value :=
  e.valueOr mode (e.resolving mode) cell

/-- A record whose formula cells are computed as they are read. -/
def view (e : Engine) (mode : ReadMode) (record : RecordId) : View (StateM Session) :=
  e.viewOr mode (e.resolving mode) record

/-- The value of a formula on a record. -/
def compute (e : Engine) (mode : ReadMode) (record : RecordId) (root : Expr) :
    StateM Session Value :=
  root.evalM (e.view mode record) e.options.now

/-- Carries out a session and keeps what it computed. -/
def inSession {α : Type} (e : Engine) (action : StateM Session α) : α × Engine :=
  let (result, s) := action.run ⟨.empty, e.cache⟩
  (result, { e with cache := s.cache })

/-- The value of a formula on a record. Formula cells that it reads come from the cache. -/
def evaluate (e : Engine) (formula : Formula) (record : RecordId) : Value × Engine :=
  e.inSession (e.compute .cached record formula.root)

/-- The value of a cell: what is stored, or what its formula gives, from the cache where it is
there. -/
def read (e : Engine) (record : RecordId) (f : FieldId) : Value × Engine :=
  e.inSession (e.valueOf .cached (record, f))

/-- The value of a cell with every formula on the way computed anew. -/
def readFresh (e : Engine) (record : RecordId) (f : FieldId) : Value × Engine :=
  e.inSession (e.valueOf .fresh (record, f))

/-- Drops the computed value of a cell. -/
def invalidate (e : Engine) (record : RecordId) (f : FieldId) : Engine :=
  { e with cache := (e.cache.invalidate record f).1 }

/-- Drops all computed values. -/
def clearCache (e : Engine) : Engine := { e with cache := e.cache.clear }

end Engine

end ComputedFields
