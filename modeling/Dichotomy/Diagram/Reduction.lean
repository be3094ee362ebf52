import Dichotomy.Diagram.Comparison

/-!
# Reduction of one decision

Before a branch over two built sides is made, the two sides are compared.  A side that leaves the
output free constrains nothing, so the other side alone can answer; two equal sides make the test
pointless.  Only sides that differ and both demand something need a branch.

The decision depends on the shapes of the sides alone (`Reduction.of_shape`), which is why it is
the same for marked and unmarked diagrams.
-/

namespace Dichotomy

/-- Whether a diagram is a leaf that leaves the output free. -/
def Diagram.isFree {ι : Type} : Diagram ι → Bool
  | leaf _ cell => cell.isFree
  | branch _ _ _ _ => false

/-- What becomes of a decision over two sides. -/
inductive Reduction where
  /-- The high side answers for both. -/
  | keepHigh
  /-- The low side answers for both. -/
  | keepLow
  /-- The input has to be tested. -/
  | split
  deriving DecidableEq

namespace Reduction

variable {ι : Type}

/-- A free side gives way to the other one, two free sides or two equal sides are one side, and
    all else is a test. -/
def of (high low : Diagram ι) : Reduction :=
  if high.isFree then if low.isFree then keepHigh else keepLow
  else if low.isFree then keepHigh
  else if high.sameShape low then keepHigh
  else split

theorem isFree_shape (d : Diagram ι) : d.shape.isFree = d.isFree := by cases d <;> rfl

theorem of_shape (high low : Diagram ι) : of high.shape low.shape = of high low := by
  have hsame : high.shape.sameShape low.shape = high.sameShape low := by
    rw [Bool.eq_iff_iff, Diagram.sameShape_iff, Diagram.sameShape_iff, Diagram.shape_shape,
      Diagram.shape_shape]
  rw [of, of, isFree_shape, isFree_shape, hsame]

end Reduction

namespace Diagram

variable {ι : Type}

/-- The decision on `var` over two sides, reduced; `mark` is used only if a branch is made. -/
def reducedBranch (mark : ι) (var : Int) (high low : Diagram ι) : Diagram ι :=
  match Reduction.of high low with
  | .keepHigh => high
  | .keepLow => low
  | .split => branch mark var high low

end Diagram

end Dichotomy
