import Dichotomy.Check.Returns
import Dichotomy.Diagram.Outline

/-!
# One score, three ways of counting

The score merges one decision with the next, `Diagram.returns` follows a whole merge chain, and
`Outline.results` counts what an outline writes down.  All three are the same number, because
what a diagram does first (`Diagram.opening`) splits the score into the scores of what follows.

## Main statements

- `Diagram.score_eq_opening`: the score of a diagram by its opening.
- `Diagram.returns_eq_score`, `Diagram.results_outline`: the other two counts.
-/

namespace Dichotomy

namespace Diagram

variable {ι : Type}

/-! ## The score of a merge chain -/

/-- A decision over a low leaf counts its fallback once, wherever its merge chain stops. -/
theorem score_branch_leaf (mark : ι) (var : Int) (high : Diagram ι) (lowMark : ι) (cell : Cell) :
    (branch mark var high (leaf lowMark cell)).score = (high.runOver cell).2.score + 1 := by
  induction high generalizing mark var lowMark cell with
  | leaf highMark highCell => rfl
  | branch highMark highVar highHigh highLow ih _ =>
    cases highLow with
    | branch innerMark innerVar innerHigh innerLow =>
      -- The high side has no fallback to share, so the run is empty.
      rw [runOver]
      simp [score, isMergeable]
    | leaf innerMark inner =>
      by_cases h : inner = cell
      · subst h
        rw [score]
        simp only [isMergeable, beq_self_eq_true, if_true]
        rw [ih, runOver]
        simp
      · rw [score, runOver]
        simp [isMergeable, h, score]

theorem score_branch_branch (mark : ι) (var : Int) (high : Diagram ι) (lowMark : ι) (lowVar : Int)
    (lowHigh lowLow : Diagram ι) :
    (branch mark var high (branch lowMark lowVar lowHigh lowLow)).score =
      high.score + (branch lowMark lowVar lowHigh lowLow).score := by
  have hmerge : (branch mark var high (branch lowMark lowVar lowHigh lowLow)).isMergeable =
      false := by
    cases high <;> simp [isMergeable]
  rw [score, hmerge]
  rfl

/-- The score of a diagram is that of its opening: one result, or those of both sides. -/
theorem score_eq_opening (d : Diagram ι) :
    d.score =
      match d.opening with
      | .give _ => 1
      | .ask _ high low => high.score + low.score := by
  cases d with
  | leaf mark cell => rfl
  | branch mark var high low =>
    cases low with
    | leaf lowMark cell =>
      -- The chain that starts at the root runs over the root and then over its high side.
      rw [score_branch_leaf, opening_branch_leaf]
      rfl
    | branch lowMark lowVar lowHigh lowLow =>
      rw [score_branch_branch, opening_branch_branch]

/-! ## The other counts -/

/-- Counting one merge chain at a time gives the score. -/
theorem returns_eq_score (d : Diagram ι) : d.returns = d.score := by
  fun_induction returns d with
  | case1 mark cell => rfl
  | case2 mark var high low chain hchain ih =>
    rw [ih, score_eq_opening (branch mark var high low)]
    simp [opening, hchain, score]
  | case3 mark var high low hchain ihHigh ihLow =>
    rw [ihHigh, ihLow, score_eq_opening (branch mark var high low)]
    simp [opening, hchain]

/-- An outline writes down as many results as the score says. -/
theorem results_outline (d : Diagram ι) : d.outline.results = d.score := by
  induction d using opening_induction with
  | give d cell hopening =>
    rw [outline_eq, score_eq_opening, hopening]
    rfl
  | ask d inputs high low hopening ihHigh ihLow =>
    rw [outline_eq, score_eq_opening, hopening]
    show high.outline.results + low.outline.results = high.score + low.score
    rw [ihHigh, ihLow]

theorem score_pos (d : Diagram ι) : 0 < d.score := by
  induction d with
  | leaf mark cell => exact Nat.one_pos
  | branch mark var high low ihHigh ihLow =>
    rw [score]
    split <;> omega

end Diagram

end Dichotomy
