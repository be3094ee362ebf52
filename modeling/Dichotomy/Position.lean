/-!
# Entries by signed position

Positions from `0` count from the front and positions below `0` count from the end, so `-1` is
the last entry.  Input numbers, levels of an order and node numbers are all looked up this way.
A number without an entry is either a position outside the list or, if it does not fit into
64 bits with a sign, no position at all.
-/

namespace Dichotomy

/-- Why there is no entry at a position. -/
inductive Miss where
  /-- The position lies outside the list. -/
  | outside
  /-- The number is too large for a position. -/
  | unaddressable
  deriving DecidableEq

/-- Whether a number fits into 64 bits with a sign. -/
def isAddressable (i : Int) : Bool := -9223372036854775808 ≤ i && i < 9223372036854775808

/-- The entry of a list at a signed position, if there is one. -/
def entryAt? {α : Type} (xs : List α) (i : Int) : Option α :=
  if 0 ≤ i then xs[i.toNat]?
  else if 0 ≤ i + xs.length then xs[(i + xs.length).toNat]?
  else none

/-- The entry of a list at a signed position. -/
def atPosition {α : Type} (xs : List α) (i : Int) : Except Miss α :=
  match entryAt? xs i with
  | some x => .ok x
  | none => .error (if isAddressable i then .outside else .unaddressable)

end Dichotomy
