import Dichotomy.Fault

/-!
# Table sizes

A complete table over `n` inputs has `2 ^ n` cells, so the number of inputs is read off the
number of cells.
-/

namespace Dichotomy

/-- The number of inputs of a table with the given number of cells. -/
def inputCount (cells : Int) : Except Fault Nat :=
  if rowCount cells.toNat.log2 = cells.toNat then .ok cells.toNat.log2
  else .error (.tableSize cells)

/-- An output column that is complete: one cell for each assignment of its inputs. -/
structure Table where
  /-- The number of inputs. -/
  inputs : Nat
  /-- The cells, by row number. -/
  cells : List Cell
  /-- There is one cell per row. -/
  length_cells : cells.length = rowCount inputs

/-- The table with the given cells, if they are as many as a table has. -/
def Table.ofCells (cells : List Cell) : Except Fault Table :=
  if h : rowCount cells.length.log2 = cells.length then .ok ⟨cells.length.log2, cells, h.symm⟩
  else .error (.tableSize cells.length)

end Dichotomy
