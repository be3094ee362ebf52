import Dichotomy.Build
import Dichotomy.Diagram.Chain
import Dichotomy.Search.Arrangement

/-!
# The search for the best orders

Every order of the inputs gives a diagram and every diagram a score, the number of results that
code for it writes down.  The search is exhaustive, and orders that share the least score are all
kept.
-/

namespace Dichotomy

/-- The diagram found for one order of the inputs. -/
structure Candidate where
  /-- The number of the candidate; a search counts its candidates from one. -/
  id : Int
  /-- The order of the inputs, first test in front. -/
  order : List Int
  /-- The diagram. -/
  root : Node
  /-- The number of results that code for the diagram writes down. -/
  score : Int

/-- The outcome of a search. -/
structure Report where
  /-- The number of inputs searched over. -/
  inputs : Int
  /-- One candidate per order, in the order of the search. -/
  candidates : List Candidate

namespace Table

/-- The candidate of one order. -/
def candidate (table : Table) (order : List Int) (id : Nat) : Except Fault Candidate := do
  let root ← table.build order
  return ⟨id, order, root, root.score⟩

/-- The candidates of all orders, numbered from one. -/
def candidates (table : Table) : Except Fault (List Candidate) :=
  ((arrangements table.inputs).zipIdx 1).mapM fun (order, id) => table.candidate order id

/-- Searches all orders. -/
def search (table : Table) : Except Fault Report := do
  return ⟨table.inputs, ← table.candidates⟩

end Table

/-- The candidates that share the least score, in their order. -/
def leastScored (candidates : List Candidate) : List Candidate :=
  match (candidates.map (·.score)).min? with
  | some least => candidates.filter (·.score == least)
  | none => []

namespace Report

/-- The least score. -/
def leastScore (report : Report) : Except Fault Int :=
  match (report.candidates.map (·.score)).min? with
  | some least => .ok least
  | none => .error .noScores

/-- The candidates of least score. -/
def optimal (report : Report) : List Candidate :=
  leastScored report.candidates

end Report

end Dichotomy
