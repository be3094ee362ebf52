import Dichotomy.Export.Flowchart
import Dichotomy.Text.Escape

/-!
# Mermaid

Flowcharts as Mermaid graphs.  All texts are double-quoted, with an entity for the double quote.
-/

namespace Dichotomy

namespace Mermaid

/-- A character inside a quoted text. -/
def writeChar (c : Char) : List Char :=
  if c = '"' then ['#', 'q', 'u', 'o', 't', ';'] else [c]

/-- The text in double quotes. -/
def quotedText (text : String) : String :=
  "\"" ++ escaped writeChar text ++ "\""

/-- The line of one part. -/
def elementLine : Element → String
  | .result n (.literal text) => "    " ++ labelText n ++ "[" ++ quotedText text ++ "]"
  | .result n .dontCare => "    " ++ labelText n ++ "[null]"
  | .decision n _ text => "    " ++ labelText n ++ "\x7b" ++ quotedText text ++ "\x7d"
  | .edge source target true => "    " ++ labelText source ++ " -->|True| " ++ labelText target
  | .edge source target false => "    " ++ labelText source ++ " -.->|False| " ++ labelText target

/-- The lines of a flowchart below a start shape with the given text. -/
def body (name : String) (chart : Flowchart) : String :=
  let start := if name = "" then "Start" else name
  let head := "    Start([" ++ quotedText start ++ "]) --> " ++ labelText chart.start
  "\n".intercalate ("graph TD" :: head :: chart.elements.map elementLine)

/-- The whole graph, headed by its number. -/
def graph (id : Int) (body : String) : String :=
  "%% ID: " ++ toString id ++ "\n" ++ body

end Mermaid

end Dichotomy
