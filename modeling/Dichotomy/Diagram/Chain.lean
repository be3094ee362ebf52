import Dichotomy.Diagram.Ascending
import Dichotomy.Diagram.Basic

/-!
# Merge chains

Nested tests that share one fallback read as a single test of all their inputs.  A chain starts
at a branch whose low side is a leaf and follows high sides as long as they are branches with a
low leaf of the same cell.

`isMergeable` is the one-level view of the same thing, used by the score; `chain?` walks the
whole run.  `opening` is what a reader of a diagram sees first: a cell, or one test of all inputs
of the run.
-/

namespace Dichotomy

/-- A run of decisions that share one fallback. -/
structure Chain (ι : Type) where
  /-- The tested inputs, ascending. -/
  conditions : List Int
  /-- Where the run ends when all its inputs are true. -/
  consequence : Diagram ι
  /-- The mark of the leaf that the first decision falls back to. -/
  fallbackMark : ι
  /-- The cell produced when some input of the run is false. -/
  fallback : Cell

/-- What a diagram does first when its merge chains are read as single tests. -/
inductive Opening (ι : Type) where
  /-- It gives a cell. -/
  | give (cell : Cell)
  /-- It goes on to `high` if all of `inputs` are true, and else to `low`. -/
  | ask (inputs : List Int) (high low : Diagram ι)

namespace Diagram

variable {ι : Type}

/-- Follows high sides through branches whose low side is a leaf of the given cell: the inputs
    tested on the way, and the diagram where the run stops. -/
def runOver (fallback : Cell) : Diagram ι → List Int × Diagram ι
  | leaf mark cell => ([], leaf mark cell)
  | branch mark var high (leaf lowMark cell) =>
    if cell = fallback then
      let (inputs, stop) := high.runOver fallback
      (var :: inputs, stop)
    else ([], branch mark var high (leaf lowMark cell))
  | branch mark var high (branch lowMark lowVar lowHigh lowLow) =>
    ([], branch mark var high (branch lowMark lowVar lowHigh lowLow))

/-- The merge chain that starts at the root, if the root is a branch over a low leaf. -/
def chain? : Diagram ι → Option (Chain ι)
  | branch mark var high (leaf lowMark cell) =>
    let (inputs, stop) := (branch mark var high (leaf lowMark cell)).runOver cell
    some ⟨ascending inputs, stop, lowMark, cell⟩
  | _ => none

/-- What the diagram does first. -/
def opening : Diagram ι → Opening ι
  | leaf _ cell => .give cell
  | branch mark var high low =>
    match (branch mark var high low).chain? with
    | some chain =>
      .ask chain.conditions chain.consequence (leaf chain.fallbackMark chain.fallback)
    | none => .ask [var] high low

/-- Whether the root decision shares its fallback with the decision on its high side. -/
def isMergeable : Diagram ι → Bool
  | branch _ _ (branch _ _ _ (leaf _ inner)) (leaf _ outer) => inner == outer
  | _ => false

/-- The number of results that code for the diagram has to write down: a decision that shares
    its fallback with its high side adds none of its own. -/
def score : Diagram ι → Nat
  | leaf _ _ => 1
  | branch mark var high low =>
    if (branch mark var high low).isMergeable then high.score else high.score + low.score

/-! ## The two kinds of branches -/

/-- The chain at a branch over a low leaf begins with the test of the branch and takes in the run
    over the high side. -/
theorem chain?_branch_leaf (mark : ι) (var : Int) (high : Diagram ι) (lowMark : ι) (cell : Cell) :
    (branch mark var high (leaf lowMark cell)).chain? =
      some ⟨ascending (var :: (high.runOver cell).1), (high.runOver cell).2, lowMark, cell⟩ := by
  simp [chain?, runOver]

theorem opening_branch_leaf (mark : ι) (var : Int) (high : Diagram ι) (lowMark : ι) (cell : Cell) :
    (branch mark var high (leaf lowMark cell)).opening =
      .ask (ascending (var :: (high.runOver cell).1)) (high.runOver cell).2 (leaf lowMark cell) := by
  simp only [opening, chain?_branch_leaf]

theorem opening_branch_branch (mark : ι) (var : Int) (high : Diagram ι) (lowMark : ι) (lowVar : Int)
    (lowHigh lowLow : Diagram ι) :
    (branch mark var high (branch lowMark lowVar lowHigh lowLow)).opening =
      .ask [var] high (branch lowMark lowVar lowHigh lowLow) := by
  simp only [opening, chain?]

/-- A diagram that begins with a question is a branch over a low leaf, which asks for its whole
    chain, or a branch over a low branch, which asks for its own input. -/
theorem opening_cases {d : Diagram ι} {inputs : List Int} {high low : Diagram ι}
    (h : d.opening = .ask inputs high low) :
    (∃ mark var side lowMark cell, d = branch mark var side (leaf lowMark cell) ∧
      inputs = ascending (var :: (side.runOver cell).1) ∧ high = (side.runOver cell).2 ∧
      low = leaf lowMark cell) ∨
    ∃ mark var lowMark lowVar lowHigh lowLow, d = branch mark var high low ∧ inputs = [var] ∧
      low = branch lowMark lowVar lowHigh lowLow := by
  cases d with
  | leaf mark cell => cases h
  | branch mark var side low' =>
    cases low' with
    | leaf lowMark cell =>
      rw [opening_branch_leaf] at h
      obtain ⟨rfl, rfl, rfl⟩ := Opening.ask.inj h
      exact .inl ⟨mark, var, side, lowMark, cell, rfl, rfl, rfl, rfl⟩
    | branch lowMark lowVar lowHigh lowLow =>
      rw [opening_branch_branch] at h
      obtain ⟨rfl, rfl, rfl⟩ := Opening.ask.inj h
      exact .inr ⟨mark, var, lowMark, lowVar, lowHigh, lowLow, rfl, rfl, rfl⟩

/-- A diagram with a chain begins with the question of the chain. -/
theorem opening_of_chain? {d : Diagram ι} {chain : Chain ι} (h : d.chain? = some chain) :
    d.opening =
      .ask chain.conditions chain.consequence (leaf chain.fallbackMark chain.fallback) := by
  cases d with
  | leaf mark cell => cases h
  | branch mark var high low => simp only [opening, h]

/-! ## What follows an opening is smaller -/

theorem decisions_runOver_le (fallback : Cell) (d : Diagram ι) :
    (d.runOver fallback).2.decisions ≤ d.decisions := by
  induction d with
  | leaf mark cell => exact Nat.le_refl _
  | branch mark var high low ihHigh _ =>
    cases low with
    | leaf lowMark cell =>
      rw [runOver, decisions]
      split
      · show (high.runOver fallback).2.decisions ≤ _
        omega
      · exact Nat.le_refl _
    | branch => exact Nat.le_refl _

theorem decisions_lt_of_opening {d : Diagram ι} {inputs : List Int} {high low : Diagram ι}
    (h : d.opening = .ask inputs high low) :
    high.decisions < d.decisions ∧ low.decisions < d.decisions := by
  obtain ⟨mark, var, side, lowMark, cell, rfl, -, rfl, rfl⟩ |
    ⟨mark, var, lowMark, lowVar, lowHigh, lowLow, rfl, -, -⟩ := opening_cases h
  · have hrun := decisions_runOver_le cell side
    simp only [decisions]
    omega
  · simp only [decisions]
    omega

/-- Induction along openings: a property that passes from both sides of an opening to the diagram
    holds of all diagrams, if it holds of those that give a cell. -/
@[elab_as_elim]
theorem opening_induction {motive : Diagram ι → Prop}
    (give : ∀ d cell, d.opening = .give cell → motive d)
    (ask : ∀ d inputs high low, d.opening = .ask inputs high low → motive high → motive low →
      motive d) (d : Diagram ι) : motive d := by
  induction hn : d.decisions using Nat.strongRecOn generalizing d with
  | ind n ih =>
    subst hn
    cases hopening : d.opening with
    | give cell => exact give d cell hopening
    | ask inputs high low =>
      obtain ⟨hhigh, hlow⟩ := decisions_lt_of_opening hopening
      exact ask d inputs high low hopening (ih _ hhigh high rfl) (ih _ hlow low rfl)

/-! ## Marks do not matter -/

@[simp] theorem isMergeable_shape (d : Diagram ι) : d.shape.isMergeable = d.isMergeable := by
  rcases d with _ | ⟨_, _, _ | ⟨_, _, _, _ | _⟩, _ | _⟩ <;> rfl

@[simp] theorem score_shape (d : Diagram ι) : d.shape.score = d.score := by
  induction d with
  | leaf mark cell => rfl
  | branch mark var high low ihHigh ihLow =>
    have hmerge : (branch () var high.shape low.shape).isMergeable =
        (branch mark var high low).isMergeable := isMergeable_shape (branch mark var high low)
    rw [shape_branch, score, score, hmerge, ihHigh, ihLow]

end Diagram

end Dichotomy
