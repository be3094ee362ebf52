/-!
# Assignments and rows

An assignment gives one truth value to each input, input `0` first.  The rows of a complete
decision table are numbered so that row `0` is the all-true assignment and the first half of the
rows is the half where input `0` is true: a true input contributes nothing to the row number and
a false one the place value of its column.
-/

namespace Dichotomy

/-- Truth values of the inputs, input `0` first. -/
abbrev Assignment := List Bool

/-- The number of rows of a complete table: two to the number of inputs. -/
def rowCount (inputs : Nat) : Nat := Nat.pow 2 inputs

/-- The numbers of all inputs, ascending. -/
def inputNumbers (inputs : Int) : List Int :=
  (List.range inputs.toNat).map fun (i : Nat) => (i : Int)

namespace Assignment

/-- The assignment of `n` inputs that a row number stands for.  Only the lowest `n` binary places
    of the number matter, so every integer names a row. -/
def ofRow : Nat → Int → Assignment
  | 0, _ => []
  | n + 1, row => decide (row / rowCount n % 2 = 0) :: ofRow n row

/-- The row number of an assignment. -/
def row : Assignment → Nat
  | [] => 0
  | value :: rest => (if value then 0 else rowCount rest.length) + row rest

/-- The assignment written with one letter per input. -/
def letters (a : Assignment) : String :=
  String.ofList (a.map fun value => if value then 'T' else 'F')

@[simp] theorem length_ofRow (n : Nat) (row : Int) : (ofRow n row).length = n := by
  induction n with
  | zero => rfl
  | succ n ih => simp [ofRow, ih]

/-- All assignments of `n` inputs, in the order of their rows. -/
def all (n : Nat) : List Assignment :=
  (List.range (rowCount n)).map fun (row : Nat) => ofRow n row

end Assignment

/-- The input columns of a complete decision table, one list per row, with the given marks for a
    true and a false input.  Without inputs there is one empty row. -/
def combinations {α : Type} (inputs : Int) (whenTrue whenFalse : α) : List (List α) :=
  (Assignment.all inputs.toNat).map (·.map fun value => if value then whenTrue else whenFalse)

end Dichotomy
