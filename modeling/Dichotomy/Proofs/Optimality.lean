import Dichotomy.Proofs.OrderedTrees
import Dichotomy.Proofs.Score
import Dichotomy.Proofs.SearchReport
import Dichotomy.Proofs.Walk
import Mathlib.Order.Bounds.Defs
import Mathlib.Tactic.IntervalCases

/-!
# The search finds the least score

For a table without free cells, the diagram built for an order has the least score and the fewest
decisions among all diagrams that follow the order and answer as the table demands, reduced or not.

The score is not made up of the scores of the sides: what a decision over a diagram adds depends
on what the diagram itself falls back to.  So scores are compared together with the scores of all
decisions that could be put on top (`AtMost`), and this comparison is kept by every step.

## Main statements

- `Diagram.AtMost.of_high`, `Diagram.AtMost.branch`: leaving a test out, and making it.
- `Tree.ofCells_atMost`: reduced trees are at most as large as any other tree that follows the
  order.
- `Table.build_least`: built diagrams are optimal for their order, and the search for all orders.
-/

namespace Dichotomy

namespace Diagram

variable {ι κ : Type}

/-! ## Scores below a decision -/

/-- What the root falls back to, if its low side is a leaf. -/
def fallback? : Diagram ι → Option Cell
  | branch _ _ _ (leaf _ cell) => some cell
  | _ => none

/-- The score of a decision over the diagram that falls back to a cell. -/
def scoreUnder (cell : Cell) (d : Diagram ι) : Nat :=
  if d.fallback? = some cell then d.score else d.score + 1

theorem score_branch_leaf_eq_scoreUnder (mark : ι) (var : Int) (high : Diagram ι) (lowMark : ι)
    (cell : Cell) :
    (branch mark var high (leaf lowMark cell)).score = high.scoreUnder cell := by
  have hmerge : (branch mark var high (leaf lowMark cell)).isMergeable =
      decide (high.fallback? = some cell) := by
    rcases high with _ | ⟨_, _, _, ⟨_, inner⟩ | _⟩
    · simp [isMergeable, fallback?]
    · simp [isMergeable, fallback?, beq_eq_decide]
    · simp [isMergeable, fallback?]
  rw [score, hmerge, scoreUnder]
  simp [score]

theorem score_le_scoreUnder (cell : Cell) (d : Diagram ι) : d.score ≤ d.scoreUnder cell := by
  rw [scoreUnder]
  split <;> omega

theorem scoreUnder_le (cell : Cell) (d : Diagram ι) : d.scoreUnder cell ≤ d.score + 1 := by
  rw [scoreUnder]
  split <;> omega

/-- A diagram is at most as large as another one, alone and below any decision. -/
structure AtMost (d : Diagram ι) (d' : Diagram κ) : Prop where
  decisions : d.decisions ≤ d'.decisions
  score : d.score ≤ d'.score
  scoreUnder : ∀ cell, d.scoreUnder cell ≤ d'.scoreUnder cell

namespace AtMost

theorem leaf (mark : ι) (mark' : κ) (cell : Cell) :
    AtMost (.leaf mark cell) (.leaf mark' cell) where
  decisions := Nat.le_refl 0
  score := Nat.le_refl 1
  scoreUnder _ := Nat.le_refl 2

variable {d : Diagram ι} {high low : Diagram ι} {high' low' : Diagram κ}

/-- Leaving out a test at the root makes a diagram no larger. -/
theorem of_high (h : AtMost d high') (mark : κ) (var : Int) (low' : Diagram κ) :
    AtMost d (branch mark var high' low') where
  decisions := by
    have := h.decisions
    rw [Diagram.decisions]
    omega
  score := by
    have := h.score
    rw [Diagram.score]
    split <;> omega
  scoreUnder cell := by
    have hunder := h.scoreUnder cell
    cases low' with
    | leaf lowMark lowCell =>
      have hscore := score_branch_leaf_eq_scoreUnder mark var high' lowMark lowCell
      by_cases hcell : lowCell = cell
      · -- The test has the score of a decision over its high side.
        subst hcell
        rw [← hscore] at hunder
        exact hunder.trans (score_le_scoreUnder _ _)
      · have hle := scoreUnder_le cell high'
        have hge := score_le_scoreUnder lowCell high'
        have htop : (branch mark var high' (.leaf lowMark lowCell)).scoreUnder cell =
            (branch mark var high' (.leaf lowMark lowCell)).score + 1 := by
          rw [Diagram.scoreUnder, if_neg]
          simpa [fallback?] using hcell
        omega
    | branch lowMark lowVar lowHigh lowLow =>
      -- The low side makes up for the decision on top, which adds one result at most.
      have hscore := score_branch_branch mark var high' lowMark lowVar lowHigh lowLow
      have hle := scoreUnder_le cell high'
      have hge := score_le_scoreUnder cell
        (branch mark var high' (branch lowMark lowVar lowHigh lowLow))
      have hpos := (branch lowMark lowVar lowHigh lowLow).score_pos
      omega

/-- Making a test over smaller sides gives a smaller diagram, as long as a fallback stays one. -/
theorem branch (hhigh : AtMost high high') (hlow : AtMost low low')
    (hfallback : ∀ mark cell, low' = .leaf mark cell → ∃ mark, low = .leaf mark cell)
    (mark : ι) (mark' : κ) (var var' : Int) :
    AtMost (Diagram.branch mark var high low) (Diagram.branch mark' var' high' low') := by
  have hscore : (Diagram.branch mark var high low).score ≤
      (Diagram.branch mark' var' high' low').score := by
    cases low' with
    | leaf lowMark' cell =>
      -- The fallback has stayed, so both scores are those of decisions over the high sides.
      obtain ⟨lowMark, rfl⟩ := hfallback lowMark' cell rfl
      rw [score_branch_leaf_eq_scoreUnder, score_branch_leaf_eq_scoreUnder]
      exact hhigh.scoreUnder cell
    | branch lowMark' lowVar' lowHigh' lowLow' =>
      rw [score_branch_branch]
      cases low with
      | leaf lowMark cell =>
        -- A new fallback adds one result at most, where the other low side had one or more.
        have hunder := hhigh.scoreUnder cell
        have hle := scoreUnder_le cell high'
        have hpos := (Diagram.branch lowMark' lowVar' lowHigh' lowLow').score_pos
        rw [score_branch_leaf_eq_scoreUnder]
        omega
      | branch lowMark lowVar lowHigh lowLow =>
        have hhighScore := hhigh.score
        have hlowScore := hlow.score
        rw [score_branch_branch]
        omega
  refine ⟨?_, hscore, fun cell => ?_⟩
  · have := hhigh.decisions
    have := hlow.decisions
    rw [Diagram.decisions, Diagram.decisions]
    omega
  · have hle := scoreUnder_le cell (Diagram.branch mark var high low)
    by_cases hcell : (Diagram.branch mark' var' high' low').fallback? = some cell
    · -- Where the larger diagram shares its fallback with the decision on top, so does this one.
      have hkept : (Diagram.branch mark var high low).fallback? = some cell := by
        cases low' with
        | leaf lowMark' lowCell =>
          obtain ⟨lowMark, rfl⟩ := hfallback lowMark' lowCell rfl
          exact hcell
        | branch => cases hcell
      rw [Diagram.scoreUnder, if_pos hkept, Diagram.scoreUnder, if_pos hcell]
      exact hscore
    · have htop : (Diagram.branch mark' var' high' low').scoreUnder cell =
          (Diagram.branch mark' var' high' low').score + 1 := if_neg hcell
      omega

end AtMost

end Diagram

/-! ## Reduced trees are least -/

namespace Tree

/-- A tree of one cell only is that cell. -/
theorem ofCells_const {order : List Int} {cells : List Bool → Cell} {cell : Cell}
    (h : ∀ values, values.length = order.length → cells values = cell) :
    Tree.ofCells order cells = .leaf () cell := by
  rw [ofCells_congr h]
  clear h
  induction order with
  | nil => rfl
  | cons var order ih => rw [ofCells, ih, Diagram.reducedBranch_self]

theorem isFree_ofCells_of_full {order : List Int} {cells : List Bool → Cell}
    (h : ∀ values, values.length = order.length → (cells values).isFree = false) :
    (Tree.ofCells order cells).isFree = false := by
  rw [Bool.eq_false_iff]
  intro hfree
  have hsome := isFree_ofCells.mp hfree (List.replicate order.length true) List.length_replicate
  rw [h _ List.length_replicate] at hsome
  cases hsome

variable {ι : Type}

/-- **Reduced trees are least**: any diagram that follows the order and has the same answers is at
    least as large. -/
theorem ofCells_atMost {n : Nat} {order : List Int} {cells : List Bool → Cell} {d : Diagram ι}
    (hinputs : DistinctInputs n order)
    (hfull : ∀ values, values.length = order.length → (cells values).isFree = false)
    (hfollows : d.Follows order) (hrealizes : d.Realizes n order cells) :
    Diagram.AtMost (Tree.ofCells order cells) d := by
  induction order generalizing cells d with
  | nil =>
    obtain ⟨mark, cell, rfl⟩ := hfollows.exists_leaf
    have hcell := hrealizes (List.replicate n true) List.length_replicate
    obtain rfl : cell = cells [] := Except.ok.inj hcell
    exact .leaf () mark _
  | cons var order ih =>
    have hfull' (value : Bool) : ∀ values, values.length = order.length →
        (cells (value :: values)).isFree = false := fun values hlen =>
      hfull (value :: values) (congrArg Nat.succ hlen)
    rcases hfollows.root_or_rest with ⟨mark, high, low, rfl⟩ | hskips
    · obtain ⟨hhighFollows, hlowFollows⟩ := Diagram.follows_branch_self.mp hfollows
      have hlowRealizes := hrealizes.side hfollows hinputs false
      have hhigh := ih hinputs.tail (hfull' true) hhighFollows
        (hrealizes.side hfollows hinputs true)
      have hlow := ih hinputs.tail (hfull' false) hlowFollows hlowRealizes
      rw [ofCells]
      by_cases hsame : (Tree.ofCells order fun values => cells (true :: values)) =
          Tree.ofCells order fun values => cells (false :: values)
      · rw [← hsame, Diagram.reducedBranch_self]
        exact hhigh.of_high mark var low
      · rw [Diagram.reducedBranch_of_ne (isFree_ofCells_of_full (hfull' true))
          (isFree_ofCells_of_full (hfull' false)) hsame]
        refine hhigh.branch hlow ?_ () mark var var
        -- A low side that is a leaf gives one cell only, and so does the reduced tree.
        rintro lowMark cell rfl
        refine ⟨(), ofCells_const fun values hlen => ?_⟩
        obtain ⟨a, ha, rfl⟩ := Assignment.exists_along hinputs.tail hlen
        exact (Except.ok.inj (hlowRealizes a ha)).symm
    · -- The first input makes no difference, so the reduced tree does not test it either.
      have hsides : (Tree.ofCells order fun values => cells (true :: values)) =
          Tree.ofCells order fun values => cells (false :: values) :=
        ofCells_congr fun values hlen => hrealizes.cells_eq hskips hinputs hlen
      rw [ofCells, ← hsides, Diagram.reducedBranch_self]
      exact ih hinputs.tail (hfull' true) hskips (hrealizes.skip hskips hinputs true)

end Tree

/-! ## The search -/

/-- A diagram answers every row of a table with the cell of the row. -/
def Diagram.Computes {ι : Type} (d : Diagram ι) (table : Table) : Prop :=
  ∀ (row : Nat) (cell : Cell), table.cells[row]? = some cell →
    d.eval (Assignment.ofRow table.inputs row) = .ok cell

namespace Table

variable {table : Table} {order : List Int}

theorem realizes_of_computes {ι : Type} {d : Diagram ι} (h : d.Computes table)
    (horder : order.Perm (inputNumbers table.inputs)) :
    d.Realizes table.inputs order (table.cellAlong order) := by
  intro a ha
  have hanswer := h a.row _ (getElem?_cells (Assignment.row_lt_of_length ha))
  rw [Assignment.ofRow_row_of_length ha] at hanswer
  rw [hanswer, cellAlong_along horder ha]

theorem cell_of_full (hfull : ∀ cell ∈ table.cells, cell.isFree = false) {row : Nat} {cell : Cell}
    (h : table.cells[row]? = some cell) : ∃ text, cell = .literal text := by
  have hfree := hfull cell (List.mem_of_getElem? h)
  cases cell with
  | literal text => exact ⟨text, rfl⟩
  | dontCare => cases hfree

theorem computes_root (hfull : ∀ cell ∈ table.cells, cell.isFree = false)
    (horder : order.Perm (inputNumbers table.inputs)) : (table.root order).Computes table := by
  intro row cell hcell
  obtain ⟨text, rfl⟩ := cell_of_full hfull hcell
  exact eval_build_of_literal horder (build_eq_root horder) hcell

theorem follows_root (horder : order.Perm (inputNumbers table.inputs)) :
    (table.root order).Follows order := by
  intro route hroute
  rw [← Diagram.routes_shape, shape_root horder] at hroute
  exact Tree.follows_ofCells order _ route hroute

/-- Without free cells, none is met along an order. -/
theorem isFree_cellAlong (hfull : ∀ cell ∈ table.cells, cell.isFree = false)
    (horder : order.Perm (inputNumbers table.inputs)) {values : List Bool}
    (hlen : values.length = order.length) : (table.cellAlong order values).isFree = false := by
  obtain ⟨a, ha, rfl⟩ := Assignment.exists_along_of_perm horder hlen
  have hcell := getElem?_cells (Assignment.row_lt_of_length ha)
  rw [cellAlong_along horder ha]
  exact hfull _ (List.mem_of_getElem? hcell)

/-- Without free cells, the diagram built for an order is at most as large as any other one. -/
theorem root_atMost (hfull : ∀ cell ∈ table.cells, cell.isFree = false)
    (horder : order.Perm (inputNumbers table.inputs)) {d : Node} (hfollows : d.Follows order)
    (hcomputes : d.Computes table) :
    (table.root order).score ≤ d.score ∧ (table.root order).decisions ≤ d.decisions := by
  have hleast := Tree.ofCells_atMost (.of_perm horder)
    (fun _ hlen => isFree_cellAlong hfull horder hlen) hfollows
    (realizes_of_computes hcomputes horder)
  rw [← shape_root horder] at hleast
  have hscore := hleast.score
  have hdecisions := hleast.decisions
  rw [Diagram.score_shape] at hscore
  rw [Diagram.decisions_shape] at hdecisions
  exact ⟨hscore, hdecisions⟩

/-- **Optimality**: for a table without free cells, the diagram built for an order computes the
    table and has the least score and the fewest decisions among all diagrams that follow the order
    and compute it; the search finds the least score for any order. -/
theorem build_least (table : Table) (hfull : ∀ cell ∈ table.cells, cell.isFree = false) :
    (∀ order : List Int, order.Perm (inputNumbers table.inputs) →
      ∃ root, table.build order = .ok root ∧ root.Follows order ∧ root.Computes table ∧
        ∀ d : Node, d.Follows order → d.Computes table →
          root.score ≤ d.score ∧ root.decisions ≤ d.decisions) ∧
      ∃ report least, table.search = .ok report ∧ report.leastScore = .ok least ∧
        IsLeast {score : Int | ∃ (order : List Int) (d : Node),
          order.Perm (inputNumbers table.inputs) ∧ d.Follows order ∧ d.Computes table ∧
            score = d.score} least := by
  refine ⟨?_, ?_⟩
  · intro order horder
    exact ⟨table.root order, build_eq_root horder, follows_root horder,
      computes_root hfull horder, fun d => root_atMost hfull horder⟩
  · -- The least score is reached by a built diagram, and for each order none is below it.
    obtain ⟨least, hleast, ⟨order, horder, heq⟩, hbound⟩ := table.exists_leastScore
    refine ⟨_, least, table.search_eq, hleast, ?_, ?_⟩
    · exact ⟨order, table.root order, horder, follows_root horder, computes_root hfull horder, heq⟩
    · rintro score ⟨order', d, horder', hfollows, hcomputes, rfl⟩
      have hscore := (root_atMost hfull horder' hfollows hcomputes).1
      have hle := hbound order' horder'
      omega

/-- The table of a conjunction, and a diagram for it that tests the second input needlessly. -/
theorem build_least_conjunction :
    let table : Table := ⟨2, [.literal "A", .literal "B", .literal "B", .literal "B"], rfl⟩
    let d : Node := .branch 6 0 (.branch 2 1 (.leaf 0 (.literal "A")) (.leaf 1 (.literal "B")))
      (.branch 5 1 (.leaf 3 (.literal "B")) (.leaf 4 (.literal "B")))
    (∀ cell ∈ table.cells, cell.isFree = false) ∧ ([0, 1] : List Int).Perm (inputNumbers 2) ∧
      d.Follows [0, 1] ∧ d.Computes table ∧
        ∃ root, table.build [0, 1] = .ok root ∧ root.score ≤ d.score ∧
          root.decisions ≤ d.decisions := by
  intro table d
  have hfull : ∀ cell ∈ table.cells, cell.isFree = false := by decide
  have hperm : ([0, 1] : List Int).Perm (inputNumbers 2) := by decide
  have hfollows : d.Follows [0, 1] := by
    unfold Diagram.Follows
    decide
  have hcomputes : d.Computes table := by
    intro row cell hcell
    obtain ⟨hlt, hcell⟩ := List.getElem?_eq_some_iff.mp hcell
    subst hcell
    have hrow : row < 4 := hlt
    interval_cases row <;> rfl
  obtain ⟨hbuild, -⟩ := build_least table hfull
  obtain ⟨root, hroot, -, -, hleast⟩ := hbuild [0, 1] hperm
  exact ⟨hfull, hperm, hfollows, hcomputes, root, hroot, hleast d hfollows hcomputes⟩

end Table

end Dichotomy
