import Dichotomy.Diagram.Chain

/-!
# Outlines

An outline is a diagram whose merge chains have been folded: each test asks for the conjunction
of several inputs, listed in ascending order.  It is what code for a diagram writes down as
nested conditions.

A decision joins the test on its high side when both fall back to a leaf of the same cell, so
folding is one pass from the leaves to the root.  The result is the same as taking one opening
after the other from the root (`Diagram.outline_eq`).
-/

namespace Dichotomy

/-- A diagram with combined conditions.  Marks are those of the diagram's nodes: a test keeps the
    mark of the first decision it folds. -/
inductive Outline (ι : Type) where
  /-- Produces a cell. -/
  | give (mark : ι) (cell : Cell)
  /-- Goes on to `high` when all of `inputs` are true, and else to `low`. -/
  | test (mark : ι) (inputs : List Int) (high low : Outline ι)
  deriving DecidableEq

namespace Outline

variable {ι : Type}

/-- A test of one more input in front of two outlines.  It joins the test on the high side when
    both fall back to the same cell. -/
def guarded (mark : ι) (input : Int) : Outline ι → Outline ι → Outline ι
  | test highMark inputs high (give innerMark inner), give outerMark outer =>
    if inner = outer then test mark (insertAscending input inputs) high (give outerMark outer)
    else test mark [input] (test highMark inputs high (give innerMark inner)) (give outerMark outer)
  | high, low => test mark [input] high low

/-- The number of results written in the outline. -/
def results : Outline ι → Nat
  | give _ _ => 1
  | test _ _ high low => high.results + low.results

end Outline

namespace Diagram

variable {ι : Type}

/-- Folds the merge chains of a diagram. -/
def outline : Diagram ι → Outline ι
  | leaf mark cell => .give mark cell
  | branch mark var high low => .guarded mark var high.outline low.outline

/-! ## An outline unfolds into openings -/

theorem exists_outline_branch (mark : ι) (var : Int) (high low : Diagram ι) :
    ∃ inputs first rest, (branch mark var high low).outline = .test mark inputs first rest := by
  rw [outline]
  unfold Outline.guarded
  split
  · split <;> exact ⟨_, _, _, rfl⟩
  · exact ⟨_, _, _, rfl⟩

theorem outline_branch_branch (mark : ι) (var : Int) (high : Diagram ι) (lowMark : ι)
    (lowVar : Int) (lowHigh lowLow : Diagram ι) :
    (branch mark var high (branch lowMark lowVar lowHigh lowLow)).outline =
      .test mark [var] high.outline (branch lowMark lowVar lowHigh lowLow).outline := by
  obtain ⟨inputs, first, rest, hlow⟩ := exists_outline_branch lowMark lowVar lowHigh lowLow
  rw [outline, hlow, Outline.guarded]
  intro _ _ _ _ _ _ _ _ h
  cases h

theorem outline_branch_leaf (mark : ι) (var : Int) (high : Diagram ι) (lowMark : ι)
    (cell : Cell) :
    (branch mark var high (leaf lowMark cell)).outline =
      .test mark (ascending (var :: (high.runOver cell).1)) (high.runOver cell).2.outline
        (.give lowMark cell) := by
  induction high generalizing mark var lowMark cell with
  | leaf highMark highCell => rfl
  | branch highMark highVar highHigh highLow ih _ =>
    cases highLow with
    | leaf innerMark inner =>
      rw [outline, ih, outline, Outline.guarded, runOver]
      split
      next h => subst h; rfl
      next h => rw [ih]; rfl
    | branch innerMark innerVar innerHigh innerLow =>
      obtain ⟨inputs, first, rest, hlow⟩ :=
        exists_outline_branch innerMark innerVar innerHigh innerLow
      rw [runOver, outline, outline_branch_branch, hlow]
      rfl

/-- What an outline begins with is the opening of the diagram. -/
theorem outline_eq (d : Diagram ι) :
    d.outline =
      match d.opening with
      | .give cell => .give d.mark cell
      | .ask inputs high low => .test d.mark inputs high.outline low.outline := by
  cases d with
  | leaf => rfl
  | branch mark var high low =>
    cases low with
    | leaf lowMark cell =>
      rw [outline_branch_leaf, opening_branch_leaf]
      rfl
    | branch =>
      rw [outline_branch_branch, opening_branch_branch]
      rfl

end Diagram

end Dichotomy
