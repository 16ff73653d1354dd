import ComputedFields.Engine.Resolution

/-! Resolving a formula cell in a loop: a stack of what is left to do takes the place of recursion,
so that a long chain of reads is no deeper than a short one. -/

namespace ComputedFields

/-- What is left to do for a cell. -/
inductive Pending where
  /-- To see whether it has a value. -/
  | visit (cell : Cell)
  /-- To compute it; what it reads comes before it. -/
  | compute (cell : Cell)

/-- The cell for which there is something to do. -/
def Pending.cell : Pending → Cell
  | visit cell => cell
  | compute cell => cell

/-- A walk over the formula cells that a cell is computed from, between two turns of its loop. -/
structure Walk where
  /-- What is left to do, the next thing first. -/
  stack : List Pending
  /-- The cells that are computed or waiting for what they read. -/
  expanded : List Cell
  session : Session
  /-- The value of the cell from which the walk starts, once it is computed. -/
  result : Value

/-- The walk from a cell, before the first turn. -/
def Walk.begin (s : Session) (start : Cell) : Walk where
  stack := [.visit start]
  expanded := []
  session := s
  result := .null

namespace Engine

/-- One turn of the loop. A cell that has a value is passed over, unless the walk starts from it,
and so is one that has been expanded. Any other is put back to be computed, below all formula cells
that it reads. `again` is for cells that turn out to have no value when they are read. -/
def turn (e : Engine) (mode : ReadMode) (again : Cell → StateM Session Value) (start : Cell)
    (w : Walk) : Walk :=
  match w.stack with
  | [] => w
  | next :: rest =>
    match e.formula? next.cell.2, next with
    | none, _ => { w with stack := rest }
    | some formula, .compute cell =>
      let (value, s) :=
        (formula.root.evalM (e.viewOr mode again cell.1) e.options.now).run w.session
      { w with
        stack := rest
        session := s.record cell value
        result := if cell = start then value else w.result }
    | some _, .visit cell =>
      if cell ≠ start ∧ (w.session.known? mode cell).isSome then { w with stack := rest }
      else if cell ∈ w.expanded then { w with stack := rest }
      else { w with
        stack := (e.inputs cell).reverse.map .visit ++ .compute cell :: rest
        expanded := cell :: w.expanded }

end Engine

end ComputedFields
