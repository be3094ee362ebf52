import Dichotomy.Check.Difference
import Dichotomy.Check.Mismatch
import Dichotomy.Names
import Dichotomy.Search.Report
import Dichotomy.Text.Column
import Dichotomy.Transcript

/-!
# Verification of search results

Each candidate is checked against the table, and the first candidate is compared with every other
one outside the free rows.
-/

namespace Dichotomy

namespace Verification

open Transcript

/-- Checks one candidate against the table and prints the verdict with all mismatches. -/
def sayVerdict (outputs : List Cell) (names : Names) (c : Candidate) : Transcript Bool := do
  let mismatches ← outcome (c.root.mismatches outputs)
  let order ← outcome (names.joined ", " c.order)
  let verdict := if mismatches.isEmpty then "PASSED" else "FAILED"
  let id := alignLeft 4 (toString c.id)
  say s!"  #{id} [{order}] {verdict}"
  mismatches.forM fun m => say ("      " ++ m.message)
  return mismatches.isEmpty

/-- The assignments of the rows whose output is free. -/
def freeRows (inputs : Nat) (outputs : List Cell) : List Assignment :=
  outputs.zipIdx.filterMap fun (cell, row) =>
    if cell.isFree then some (Assignment.ofRow inputs row) else none

/-- Compares two candidates outside the excluded assignments and prints a difference. -/
def sayDifference (solver : Solver) (inputs : Nat) (excluded : List Assignment)
    (reference c : Candidate) : Transcript Bool := do
  match ← outcome (Difference.find? solver reference.root c.root inputs excluded) with
  | none => return true
  | some a =>
    say s!"  #{reference.id} and #{c.id} differ on {a.letters}"
    return false

/-- Compares the first candidate with all others. -/
def sayDifferences (solver : Solver) (inputs : Nat) (outputs : List Cell) :
    List Candidate → Transcript (List Bool)
  | [] => return []
  | reference :: others =>
    others.mapM (sayDifference solver inputs (freeRows inputs outputs) reference)

/-- Verifies candidates against the table and against each other; tells whether all is right. -/
def sayAll (solver : Solver) (candidates : List Candidate) (outputs : List Cell) (names : Names) :
    Transcript Bool := do
  let inputs ← outcome (inputCount outputs.length)
  say "Verification"
  say (rule 60 '=')
  let verdicts ← candidates.mapM (sayVerdict outputs names)
  let comparisons ← sayDifferences solver inputs outputs candidates
  let correct := verdicts.all id && comparisons.all id
  say (rule 60 '-')
  say ("All correct: " ++ if correct then "True" else "False")
  return correct

end Verification

end Dichotomy
