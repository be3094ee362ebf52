import Dichotomy.Table.Size

/-!
# Checking a diagram against a table

A row whose cell is a literal has to be answered by exactly that literal; a free row may be
answered by anything.
-/

namespace Dichotomy

/-- The cell a diagram gives for an assignment, with the fault of an assignment that is too
    short. -/
def Diagram.answer {ι : Type} (d : Diagram ι) (a : Assignment) : Except Fault Cell :=
  match d.eval a with
  | .ok cell => .ok cell
  | .error miss => .error (.uncovered miss)

/-- A row that a diagram answers wrongly. -/
structure Mismatch where
  /-- The number of the row. -/
  row : Nat
  /-- The inputs of the row. -/
  assignment : Assignment
  /-- What the table demands. -/
  expected : Cell
  /-- What the diagram gives. -/
  found : Cell

namespace Mismatch

/-- The mismatch in words. -/
def message (m : Mismatch) : String :=
  s!"Row {m.row} ({m.assignment.letters}): expected {m.expected.text}, got {m.found.text}"

/-- Checks one row. -/
def ofRow? {ι : Type} (d : Diagram ι) (inputs : Nat) (expected : Cell) (row : Nat) :
    Except Fault (Option Mismatch) :=
  if expected.isFree then .ok none
  else do
    let assignment := Assignment.ofRow inputs row
    let found ← d.answer assignment
    return if found = expected then none else some ⟨row, assignment, expected, found⟩

end Mismatch

/-- The rows of a table that a diagram answers wrongly, ascending. -/
def Diagram.mismatches {ι : Type} (d : Diagram ι) (outputs : List Cell) :
    Except Fault (List Mismatch) := do
  let inputs ← inputCount outputs.length
  let rows ← outputs.zipIdx.mapM fun (expected, row) => Mismatch.ofRow? d inputs expected row
  return rows.filterMap id

end Dichotomy
