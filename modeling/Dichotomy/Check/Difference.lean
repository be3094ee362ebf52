import Dichotomy.Diagram.Paths
import Dichotomy.Fault
import Dichotomy.Formula.Clause

/-!
# Comparing two diagrams

Two diagrams differ on an assignment when they give two different literals for it.  Whether there
is such an assignment is asked as a question about a formula.

Variable `v + 1` of the formula is input `v`.  Above the inputs there is one *reach* variable for
each literal leaf of either diagram, which implies all literals of the leaf's path, and one
*difference* variable for each pair of leaves, one of either diagram, with different literals,
which implies both reach variables.  One of the differences has to hold, and each excluded
assignment forbids all assignments that begin with it.
-/

namespace Dichotomy

namespace Diagram

variable {ι κ : Type}

/-- A test of something that is not an input, if there is one; the root is looked at first and
    low sides before high ones. -/
def foreignTest? (inputs : Int) : Diagram ι → Option Int
  | leaf _ _ => none
  | branch _ var high low =>
    if 0 ≤ var ∧ var < inputs then (low.foreignTest? inputs).or (high.foreignTest? inputs)
    else some var

/-- The paths that end in a literal, with the literal's text. -/
def demands (d : Diagram ι) : List (List Int × String) :=
  d.paths.filterMap fun
    | (path, .literal text) => some (path, text)
    | (_, .dontCare) => none

end Diagram

namespace Difference

/-- Literal leaves with their reach variables. -/
abbrev Reached := List ((List Int × String) × Int)

/-- Things with the variables `first`, `first + 1`, … in their order. -/
def numbered {α : Type} (first : Int) (things : List α) : List (α × Int) :=
  things.zipIdx.map fun (thing, position) => (thing, first + (position : Int))

/-- The clauses by which reach variables imply the literals of their paths. -/
def reachClauses (leaves : Reached) : Formula :=
  leaves.flatMap fun ((path, _), reach) => path.map fun literal => [-reach, literal]

/-- The reach variables of all pairs of leaves with different texts. -/
def clashes (first second : Reached) : List (Int × Int) :=
  first.flatMap fun ((_, text), reach) =>
    second.filterMap fun ((_, text'), reach') =>
      if text = text' then none else some (reach, reach')

/-- The clauses by which difference variables imply their two reach variables. -/
def clashClauses (differences : List ((Int × Int) × Int)) : Formula :=
  differences.flatMap fun ((reach, reach'), difference) =>
    [[-difference, reach], [-difference, reach']]

/-- The clause that forbids the assignments beginning with `a`. -/
def exclusion (a : Assignment) : Clause :=
  (numbered 1 a).map fun (value, number) => if value then -number else number

/-- The formula that holds for the inputs on which two diagrams differ; none if they cannot
    differ, because no two literals do or because everything is excluded. -/
def formula? {ι κ : Type} (inputs : Int) (first : Diagram ι) (second : Diagram κ)
    (excluded : List Assignment) : Option Formula :=
  let leaves := numbered (inputs + 1) first.demands
  let leaves' := numbered (inputs + 1 + leaves.length) second.demands
  let differences :=
    numbered (inputs + 1 + leaves.length + leaves'.length) (clashes leaves leaves')
  if differences.isEmpty || excluded.any List.isEmpty then none
  else some (reachClauses leaves ++ reachClauses leaves' ++ clashClauses differences ++
    [differences.map fun (_, difference) => difference] ++ excluded.map exclusion)

/-- An assignment on which two diagrams differ and that begins with no excluded one.  Numbering
    starts above the inputs, so only a number of inputs below zero can bring up a variable `0`,
    which has no literals. -/
def find? {ι κ : Type} (solver : Solver) (first : Diagram ι) (second : Diagram κ) (inputs : Int)
    (excluded : List Assignment) : Except Fault (Option Assignment) :=
  match (first.foreignTest? inputs).or (second.foreignTest? inputs) with
  | some var => .error (.foreignInput var inputs)
  | none =>
    match formula? inputs first second excluded with
    | none => .ok none
    | some formula =>
      if formula.any fun clause => clause.contains 0 then .error .zeroLiteral
      else
        .ok ((solver formula).map fun valuation =>
          (List.range inputs.toNat).map fun input => valuation (input + 1))

/-- Finds assignments one after the other, excluding each one for the next search, at most `limit`
    of them. -/
def collect {ι κ : Type} (solver : Solver) (first : Diagram ι) (second : Diagram κ) (inputs : Int) :
    Nat → List Assignment → Except Fault (List Assignment)
  | 0, _ => .ok []
  | limit + 1, excluded => do
    match ← find? solver first second inputs excluded with
    | none => return []
    | some a => return a :: (← collect solver first second inputs limit (excluded ++ [a]))

/-- All assignments on which two diagrams differ and that begin with no excluded one.  The number
    of rows bounds the search once there is something to find. -/
def findAll {ι κ : Type} (solver : Solver) (first : Diagram ι) (second : Diagram κ) (inputs : Int)
    (excluded : List Assignment) : Except Fault (List Assignment) := do
  match ← find? solver first second inputs excluded with
  | none => return []
  | some a =>
    return a :: (← collect solver first second inputs (rowCount inputs.toNat) (excluded ++ [a]))

end Difference

end Dichotomy
