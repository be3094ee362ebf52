import Dichotomy.Table.Order

/-!
# Arrangements

All orders of the inputs, each reached from the one before it by swapping two places.
To go through the arrangements of the first `m + 1` places, go through those of the first `m`
and then, `m` times, swap a place with the last one and go through those of the first `m` again.
The place to swap is the first one when `m` is even and moves on by one each time when `m` is odd.
-/

namespace Dichotomy

/-- The swaps that lead through all arrangements of the first places, as pairs of positions. -/
def swapsOf : Nat → List (Nat × Nat)
  | 0 => []
  | m + 1 =>
    swapsOf m ++ (List.range m).flatMap fun i => (m, if m % 2 = 1 then i else 0) :: swapsOf m

/-- A list with the entries at two positions exchanged. -/
def swapped {α : Type} (xs : List α) (positions : Nat × Nat) : List α :=
  match xs[positions.1]?, xs[positions.2]? with
  | some x, some y => (xs.set positions.1 y).set positions.2 x
  | _, _ => xs

/-- Every order of the inputs, the ascending one first.  Without inputs there is the one empty
    order. -/
def arrangements (n : Int) : List (List Int) :=
  (swapsOf n.toNat).scanl swapped (inputNumbers n)

/-- Every order of the inputs if the inputs can be counted and listed. -/
def listedArrangements (n : Int) : Except Fault (List (List Int)) :=
  match inputsFault? n with
  | some fault => .error fault
  | none => if isAddressable n then .ok (arrangements n) else .error (.uncountable n)

end Dichotomy
