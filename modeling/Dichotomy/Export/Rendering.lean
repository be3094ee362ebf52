import Dichotomy.Export.Distinct
import Dichotomy.Export.Dot
import Dichotomy.Export.JavaScript
import Dichotomy.Export.Mermaid
import Dichotomy.Export.Python
import Dichotomy.Search.Report

/-!
# Rendering search results

Every distinct rendering of some candidates in one of the export formats.
-/

namespace Dichotomy

/-- The formats diagrams are exported to. -/
inductive ExportFormat where
  /-- JavaScript functions. -/
  | javaScript
  /-- Python functions. -/
  | python
  /-- Mermaid flowcharts. -/
  | mermaid
  /-- DOT flowcharts. -/
  | dot
  deriving DecidableEq

namespace ExportFormat

/-- The text of one diagram, without the number of its candidate. -/
def body (format : ExportFormat) (name : String) (names : List String) (root : Node) :
    Except Fault String :=
  match format with
  | javaScript => JavaScript.style.bodyOf (.given names) root
  | python => Python.style.bodyOf (.given names) root
  | mermaid => do return Mermaid.body name (← root.flowchart (.given names))
  | dot => do return Dot.body name (← root.flowchart (.given names))

/-- A text completed by the number of its candidate. -/
def complete (format : ExportFormat) (name : String) (names : List String) (id : Int)
    (body : String) : String :=
  match format with
  | javaScript => JavaScript.function name names id body
  | python => Python.function name names id body
  | mermaid => Mermaid.graph id body
  | dot => Dot.graph id body

/-- The distinct renderings of some candidates, by the numbers of the candidates. -/
def renderings (format : ExportFormat) (candidates : List Candidate) (name : String)
    (names : List String) : Except Fault (List String) := do
  let distinct ← distinctRenderings (format.body name names)
    (candidates.map fun c => (c.id, c.root))
  return distinct.map fun (id, text) => format.complete name names id text

end ExportFormat

end Dichotomy
