import Dichotomy.Diagram.Basic

/-!
# Paths to the leaves

A path is written as a list of signed input numbers counted from one: `v + 1` says that input `v`
is true on the path and `-(v + 1)` that it is false.  The list is a conjunction, ready to be used
as clauses of a propositional formula.
-/

namespace Dichotomy

namespace Diagram

variable {ι : Type}

/-- All paths from the root to a leaf with the cells they reach, high sides first. -/
def paths : Diagram ι → List (List Int × Cell)
  | leaf _ cell => [([], cell)]
  | branch _ var high low =>
    high.paths.map (fun (path, cell) => ((var + 1) :: path, cell)) ++
      low.paths.map (fun (path, cell) => (-(var + 1) :: path, cell))

end Diagram

end Dichotomy
