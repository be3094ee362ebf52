import Dichotomy.Store
import Dichotomy.Table.Order
import Dichotomy.Table.Size

/-!
# Building a diagram

The diagram of a rearranged table is built from its leaves: each half becomes a side, the high
side first, and the two sides are joined by a reduced decision.  Size and order are checked once,
where the level is `0`.
-/

namespace Dichotomy

/-- What is wrong with a request to build at a level, if anything: at the top the cells have to
    match the order and the order has to name each input once. -/
def buildFault? (order : List Int) (level : Int) (cells : List Cell) : Option Fault :=
  if level = 0 then
    if cells.length ≠ rowCount order.length then some (.sizeMismatch cells.length order.length)
    else if isOrder order.length order then none
    else some (.notAnOrder order order.length)
  else none

/-- Builds the diagram of `cells`, whose first test is the one at `level` of the order. -/
def build (order : List Int) (level : Int) (cells : List Cell) : Building Node := do
  match buildFault? order level cells with
  | some fault => throw fault
  | none =>
    if 2 ≤ cells.length then
      let high ← build order (level + 1) (cells.take (cells.length / 2))
      let low ← build order (level + 1) (cells.drop (cells.length / 2))
      match atPosition order level with
      | .ok var => Building.make (·.addReduced var high low)
      | .error miss => throw (.noEntry miss)
    else
      match cells with
      | [cell] => Building.make (·.addLeaf cell)
      | _ => throw (.sizeMismatch cells.length order.length)
termination_by cells.length
decreasing_by all_goals (simp; omega)

namespace Table

/-- The diagram of a table for one order of its inputs, built in a store of its own. -/
def build (table : Table) (order : List Int) : Except Fault Node := do
  let cells ← rearranged table.inputs order table.cells
  ((Dichotomy.build order 0 cells).run.run Store.empty).1

end Table

end Dichotomy
