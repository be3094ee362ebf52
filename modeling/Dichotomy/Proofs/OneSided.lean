import Dichotomy.Proofs.Optimality

/-!
# One-sided diagrams

A diagram is one-sided if no test has decisions on both of its sides, so that all tests stand on
one path.  Free cells do no harm to such a diagram: along an order that begins with its tests, the
reduced tree of a table with free cells leaves out tests of the diagram and adds none.

A diagram with tests on both sides of a decision needs four results at least.

## Main statements

- `Diagram.isOneSided_of_score_le`: diagrams of at most three results are one-sided.
- `Tree.ofCells_atMost_of_isOneSided`: free cells do no harm to one-sided diagrams.
-/

namespace Dichotomy

namespace Diagram

variable {ι κ : Type}

/-- No test has decisions on both of its sides. -/
def IsOneSided : Diagram ι → Prop
  | leaf _ _ => True
  | branch _ _ high low =>
    (high.decisions = 0 ∨ low.decisions = 0) ∧ high.IsOneSided ∧ low.IsOneSided

theorem exists_leaf_of_decisions {d : Diagram ι} (h : d.decisions = 0) :
    ∃ mark cell, d = leaf mark cell := by
  cases d with
  | leaf mark cell => exact ⟨mark, cell, rfl⟩
  | branch mark var high low =>
    rw [decisions] at h
    omega

/-! ## The path of all tests -/

/-- The tests of a path are among all tests, in their sequence. -/
theorem sublist_tests_of_mem_routes {d : Diagram ι} {route : List Int} (h : route ∈ d.routes) :
    route.Sublist d.tests := by
  induction d generalizing route with
  | leaf mark cell =>
    rw [List.mem_singleton.mp h]
    exact List.nil_sublist _
  | branch mark var high low ihHigh ihLow =>
    rw [routes, List.mem_map] at h
    obtain ⟨rest, hrest, rfl⟩ := h
    rw [tests, List.cons_sublist_cons]
    rcases List.mem_append.mp hrest with hrest | hrest
    · exact (ihHigh hrest).trans (List.sublist_append_left _ _)
    · exact (ihLow hrest).trans (List.sublist_append_right _ _)

theorem follows_of_isPrefix {d : Diagram ι} {order : List Int} (h : d.tests <+: order) :
    d.Follows order := fun _ hroute => (sublist_tests_of_mem_routes hroute).trans h.sublist

/-- All tests of a one-sided diagram stand on one path. -/
theorem IsOneSided.tests_mem_routes {d : Diagram ι} (h : d.IsOneSided) : d.tests ∈ d.routes := by
  induction d with
  | leaf mark cell => exact List.mem_singleton.mpr rfl
  | branch mark var high low ihHigh ihLow =>
    obtain ⟨hside, hhigh, hlow⟩ := h
    rw [tests, routes]
    refine List.mem_map_of_mem (List.mem_append.mpr ?_)
    -- The side without decisions adds nothing to the tests of the other one.
    rcases hside with hside | hside
    · obtain ⟨highMark, cell, rfl⟩ := exists_leaf_of_decisions hside
      exact .inr (ihLow hlow)
    · obtain ⟨lowMark, cell, rfl⟩ := exists_leaf_of_decisions hside
      rw [tests, List.append_nil]
      exact .inl (ihHigh hhigh)

/-! ## Diagrams of few results -/

theorem score_low_lt (mark : ι) (var : Int) (high low : Diagram ι) :
    low.score < (branch mark var high low).score := by
  cases low with
  | leaf lowMark cell =>
    have hpos := (high.runOver cell).2.score_pos
    rw [score_branch_leaf, score]
    omega
  | branch lowMark lowVar lowHigh lowLow =>
    have hpos := high.score_pos
    rw [score_branch_branch]
    omega

theorem score_high_le (mark : ι) (var : Int) (high low : Diagram ι) :
    high.score ≤ (branch mark var high low).score := by
  rw [score]
  split <;> omega

/-- Decisions on both sides of a test need two results each. -/
theorem isOneSided_of_score_le {d : Diagram ι} (h : d.score ≤ 3) : d.IsOneSided := by
  induction d with
  | leaf mark cell => trivial
  | branch mark var high low ihHigh ihLow =>
    have hhigh := score_high_le mark var high low
    have hlow := score_low_lt mark var high low
    refine ⟨?_, ihHigh (by omega), ihLow (by omega)⟩
    cases low with
    | leaf lowMark cell => exact .inr rfl
    | branch lowMark lowVar lowHigh lowLow =>
      cases high with
      | leaf highMark cell => exact .inl rfl
      | branch highMark highVar highHigh highLow =>
        have hhighPos := highLow.score_pos
        have hlowPos := lowLow.score_pos
        have hhighTwo := score_low_lt highMark highVar highHigh highLow
        have hlowTwo := score_low_lt lowMark lowVar lowHigh lowLow
        rw [score_branch_branch] at h
        omega

/-- Leaving out a test at the root and its high side makes a diagram no larger. -/
theorem AtMost.of_low {d : Diagram ι} {low' : Diagram κ} (h : AtMost d low') (mark : κ) (var : Int)
    (high' : Diagram κ) : AtMost d (Diagram.branch mark var high' low') where
  decisions := by
    have := h.decisions
    rw [Diagram.decisions]
    omega
  score := h.score.trans (score_low_lt mark var high' low').le
  scoreUnder cell := by
    -- The results of the high side make up for the one that a decision on top adds.
    calc d.scoreUnder cell ≤ low'.scoreUnder cell := h.scoreUnder cell
      _ ≤ low'.score + 1 := scoreUnder_le cell low'
      _ ≤ (Diagram.branch mark var high' low').score := score_low_lt mark var high' low'
      _ ≤ (Diagram.branch mark var high' low').scoreUnder cell := score_le_scoreUnder cell _

end Diagram

/-! ## Reduced trees of tables with free cells -/

namespace Tree

/-- A reduced decision has no more results than its sides. -/
theorem score_reducedBranch_le (var : Int) (high low : Tree) :
    (Diagram.reducedBranch () var high low).score ≤ high.score + low.score := by
  rcases Diagram.reducedBranch_cases () var high low with
    ⟨-, heq⟩ | ⟨-, heq⟩ | ⟨-, heq⟩ | ⟨-, -, -, heq⟩
  · rw [heq]
    omega
  · rw [heq]
    omega
  · rw [heq]
    omega
  · rw [heq, Diagram.score]
    split <;> omega

/-- There are no more results than rows. -/
theorem score_ofCells_le (order : List Int) (cells : List Bool → Cell) :
    (Tree.ofCells order cells).score ≤ rowCount order.length := by
  induction order generalizing cells with
  | nil => exact Nat.le_refl 1
  | cons var order ih =>
    have hhigh := ih fun values => cells (true :: values)
    have hlow := ih fun values => cells (false :: values)
    have hboth := score_reducedBranch_le var
      (Tree.ofCells order fun values => cells (true :: values))
      (Tree.ofCells order fun values => cells (false :: values))
    rw [ofCells, List.length_cons, rowCount_succ]
    omega

/-- If only one cell is ever demanded, the tree demands this cell or nothing. -/
theorem ofCells_of_one_demand {order : List Int} {cells : List Bool → Cell} {cell : Cell}
    (h : ∀ values, values.length = order.length → (cells values).isFree = false →
      cells values = cell) :
    (Tree.ofCells order cells).isFree = true ∨ Tree.ofCells order cells = .leaf () cell := by
  induction order generalizing cells with
  | nil =>
    cases hfree : (cells []).isFree with
    | true => exact .inl hfree
    | false => exact .inr (by rw [ofCells, h [] rfl hfree])
  | cons var order ih =>
    have hside (value : Bool) := @ih (fun values => cells (value :: values)) fun values hlen =>
      h (value :: values) (congrArg Nat.succ hlen)
    rw [ofCells]
    rcases Diagram.reducedBranch_cases () var (Tree.ofCells order fun values => cells (true :: values))
        (Tree.ofCells order fun values => cells (false :: values)) with
      ⟨-, heq⟩ | ⟨-, heq⟩ | ⟨-, heq⟩ | ⟨hhigh, hlow, -, heq⟩
    · rw [heq]
      exact hside false
    · rw [heq]
      exact hside true
    · rw [heq]
      exact hside true
    · -- Two sides that demand the same cell are not told apart.
      rw [(hside true).resolve_left hhigh, (hside false).resolve_left hlow,
        Diagram.reducedBranch_self]
      exact .inr rfl

variable {ι : Type}

/-- A leaf has one answer, so only this one is ever demanded of it. -/
theorem ofCells_of_realizes_leaf {n : Nat} {order : List Int} {cells filled : List Bool → Cell}
    {mark : ι} {cell : Cell} (hinputs : DistinctInputs n order)
    (hrealizes : (Diagram.leaf mark cell).Realizes n order filled)
    (hdemands : ∀ values, values.length = order.length → (cells values).isFree = false →
      cells values = filled values) :
    (Tree.ofCells order cells).isFree = true ∨ Tree.ofCells order cells = .leaf () cell := by
  refine ofCells_of_one_demand fun values hlen hcell => ?_
  obtain ⟨a, ha, rfl⟩ := Assignment.exists_along hinputs hlen
  rw [hdemands _ hlen hcell]
  exact (Except.ok.inj (hrealizes a ha)).symm

/-- **Free cells do no harm to a one-sided diagram**: let a one-sided diagram meet all demands of
    some cells.  Then the reduced tree of the cells along an order that begins with the tests of
    the diagram demands nothing or is at most as large as the diagram. -/
theorem ofCells_atMost_of_isOneSided {n : Nat} {order : List Int} {cells filled : List Bool → Cell}
    {d : Diagram ι} (hone : d.IsOneSided) (hbegins : d.tests <+: order)
    (hinputs : DistinctInputs n order) (hrealizes : d.Realizes n order filled)
    (hdemands : ∀ values, values.length = order.length → (cells values).isFree = false →
      cells values = filled values) :
    (Tree.ofCells order cells).isFree = true ∨ Diagram.AtMost (Tree.ofCells order cells) d := by
  induction d generalizing order cells filled with
  | leaf mark cell =>
    refine (ofCells_of_realizes_leaf hinputs hrealizes hdemands).imp_right fun heq => ?_
    rw [heq]
    exact .leaf () mark cell
  | branch mark var high low ihHigh ihLow =>
    have hfollows := Diagram.follows_of_isPrefix hbegins
    obtain ⟨rest, rfl⟩ := hbegins
    obtain ⟨hside, hhighOne, hlowOne⟩ := hone
    rw [Diagram.tests, List.cons_append] at hfollows hinputs hrealizes hdemands ⊢
    have hdemands' (value : Bool) : ∀ values,
        values.length = (high.tests ++ low.tests ++ rest).length →
          (cells (value :: values)).isFree = false →
            cells (value :: values) = filled (value :: values) := fun values hlen =>
      hdemands (value :: values) (congrArg Nat.succ hlen)
    have hrealizes' (value : Bool) := hrealizes.side hfollows hinputs value
    -- One of the sides is a leaf, so what is left of the order begins with the tests of either.
    have hlowBegins : low.tests <+: high.tests ++ low.tests ++ rest := by
      rcases hside with hside | hside
      · obtain ⟨highMark, cell, rfl⟩ := Diagram.exists_leaf_of_decisions hside
        exact List.prefix_append _ _
      · obtain ⟨lowMark, cell, rfl⟩ := Diagram.exists_leaf_of_decisions hside
        exact List.nil_prefix
    have hhighBegins : high.tests <+: high.tests ++ low.tests ++ rest := by
      rw [List.append_assoc]
      exact List.prefix_append _ _
    have hhigh := ihHigh hhighOne hhighBegins hinputs.tail (hrealizes' true) (hdemands' true)
    have hlow := ihLow hlowOne hlowBegins hinputs.tail (hrealizes' false) (hdemands' false)
    rw [ofCells]
    rcases Diagram.reducedBranch_cases () var
        (Tree.ofCells (high.tests ++ low.tests ++ rest) fun values => cells (true :: values))
        (Tree.ofCells (high.tests ++ low.tests ++ rest) fun values => cells (false :: values)) with
      ⟨-, heq⟩ | ⟨-, heq⟩ | ⟨-, heq⟩ | ⟨hhighFree, hlowFree, -, heq⟩
    · rw [heq]
      exact hlow.imp_right fun h => h.of_low mark var high
    · rw [heq]
      exact hhigh.imp_right fun h => h.of_high mark var low
    · rw [heq]
      exact hhigh.imp_right fun h => h.of_high mark var low
    · -- Both sides demand something, so the test is made on both sides of the comparison.
      rw [heq]
      refine .inr ((hhigh.resolve_left hhighFree).branch (hlow.resolve_left hlowFree) ?_ () mark
        var var)
      rintro lowMark cell rfl
      have hcell := ofCells_of_realizes_leaf hinputs.tail (hrealizes' false) (hdemands' false)
      exact ⟨(), hcell.resolve_left hlowFree⟩

end Tree

end Dichotomy
