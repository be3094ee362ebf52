import Dichotomy.Names
import Dichotomy.Search.Report
import Dichotomy.Text.Column
import Dichotomy.Transcript

/-!
# Listings of a search

The progress of a search, one line per order, and the summary of its report.
-/

namespace Dichotomy

open Transcript

/-- One line for each candidate that has been scored. -/
def sayCandidates (candidates : List Candidate) : Transcript Unit :=
  candidates.forM fun c =>
    say s!"    Order #{c.id} {bracketed c.order}: {c.score} returns"

/-- Finds the candidates of all orders; `verbose` prints each with its score. -/
def Table.candidatesAloud (table : Table) (verbose : Bool) : Transcript (List Candidate) := do
  let candidates ← outcome table.candidates
  if verbose then sayCandidates candidates
  return candidates

/-- Searches all orders; `verbose` prints the progress. -/
def Table.searchAloud (table : Table) (verbose : Bool) : Transcript Report := do
  if verbose then
    say s!"  Searching orders of {table.inputs} inputs..."
    let report : Report := ⟨table.inputs, ← table.candidatesAloud true⟩
    let least ← outcome report.leastScore
    let best := report.optimal.length
    let total := report.candidates.length
    say s!"  Minimum {least} returns, {best} of {total} orders optimal"
    return report
  else outcome table.search

/-- The order of a candidate, as the summary shows it. -/
def Candidate.orderText (names : Names) (c : Candidate) : Except Fault String := do
  let text ← names.joined " -> " c.order
  return if text = "" then "(none)" else text

/-- The line of one candidate; those of least score carry a star. -/
def Candidate.summaryLine (names : Names) (least : Int) (c : Candidate) : Except Fault String := do
  let order := alignLeft 30 (← c.orderText names)
  let marker := if c.score = least then "*" else " "
  let id := alignLeft 4 (toString c.id)
  let decisions := c.root.decisions
  let tested := c.root.testedInputs.length
  return s!" {marker}#{id} {order} {c.score} returns, {decisions} decisions, {tested} inputs tested"

/-- Prints the summary of a report: all candidates, or those of least score. -/
def Report.sayAll (report : Report) (names : Names) (all : Bool) : Transcript Unit := do
  say ""
  say (rule 60 '=')
  let orders := report.candidates.length
  say s!"Decision Diagram Search: {report.inputs} inputs, {orders} orders"
  say (rule 60 '=')
  let least ← outcome report.leastScore
  say s!"Minimum returns: {least}"
  let shown := if all then report.candidates else report.optimal
  say ""
  let title := if all then "All orders" else "Optimal orders"
  let count := shown.length
  say s!"{title} ({count}):"
  shown.forM fun c => do say (← outcome (c.summaryLine names least))

end Dichotomy
