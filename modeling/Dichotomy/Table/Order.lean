import Dichotomy.Assignment
import Dichotomy.Fault

/-!
# Orders of the inputs

An order lists every input once, the one that is tested first in front.  A table is rearranged
for an order so that halving it again and again follows the tests: the first half holds the rows
where the first input of the order is true.
-/

namespace Dichotomy

/-- Whether a list names every input once. -/
def isOrder (inputs : Int) (order : List Int) : Bool :=
  order.length = inputs.toNat && order.mergeSort (· ≤ ·) = inputNumbers inputs

/-- What is wrong with a number of inputs that are to be listed, if anything.  A count has 63 bits,
    and with addresses of 47 bits and entries of 8 bytes no list has `2 ^ 44` entries. -/
def inputsFault? (inputs : Int) : Option Fault :=
  if 9223372036854775808 ≤ inputs then some (.uncountable inputs)
  else if 17592186044416 ≤ inputs then some .tooManyInputs
  else none

/-- The row in which some inputs have given values and all others are true: each false input
    adds the place value of its column. -/
def rowOfInputs (inputs : Nat) : List (Int × Bool) → Nat
  | [] => 0
  | (var, value) :: rest =>
    (if value then 0 else rowCount (inputs - 1 - var.toNat)) + rowOfInputs inputs rest

/-- The row of the table that stands at a given row after rearranging: the value at level `d` of
    the new row is the value of the `d`-th input of the order in the old one. -/
def sourceRow (inputs : Nat) (order : List Int) (row : Nat) : Nat :=
  rowOfInputs inputs (order.zip (Assignment.ofRow inputs row))

/-- The cells of a table, rearranged for an order.  The inputs are listed only to find out that
    the order is none, since an order of too many inputs could not be held either. -/
def rearranged (inputs : Int) (order : List Int) (cells : List Cell) : Except Fault (List Cell) :=
  if isOrder inputs order then
    (List.range cells.length).mapM fun row =>
      match atPosition cells (sourceRow inputs.toNat order row) with
      | .ok cell => .ok cell
      | .error miss => .error (.noEntry miss)
  else
    match inputsFault? inputs with
    | some fault => .error fault
    | none => .error (.notAnOrder order inputs)

end Dichotomy
