import Dichotomy.Export.Flowchart
import Dichotomy.Text.Escape

/-!
# DOT

Flowcharts as directed graphs in the DOT notation.  All texts are double-quoted, with a backslash
before each backslash and each double quote.
-/

namespace Dichotomy

namespace Dot

/-- A character inside a quoted text. -/
def writeChar (c : Char) : List Char :=
  if c = '\\' || c = '"' then ['\\', c] else [c]

/-- The text in double quotes. -/
def quotedText (text : String) : String :=
  "\"" ++ escaped writeChar text ++ "\""

/-- The text in the box of a cell. -/
def cellText : Cell → String
  | .literal text => text
  | .dontCare => "null"

/-- The line of one part. -/
def elementLine : Element → String
  | .result n cell =>
    "    " ++ labelText n ++ " [shape=box, style=filled, fillcolor=lightpink, label=" ++
      quotedText (cellText cell) ++ "];"
  | .decision n _ text =>
    "    " ++ labelText n ++ " [shape=diamond, style=filled, fillcolor=lightblue, label=" ++
      quotedText text ++ "];"
  | .edge source target true =>
    "    " ++ labelText source ++ " -> " ++ labelText target ++ " [label=\"True\"];"
  | .edge source target false =>
    "    " ++ labelText source ++ " -> " ++ labelText target ++ " [label=\"False\", style=dotted];"

/-- The lines of a flowchart below a start shape with the given text. -/
def body (name : String) (chart : Flowchart) : String :=
  let start := quotedText (if name = "" then "Start" else name)
  "\n".intercalate
    (["digraph " ++ start ++ " \x7b",
      "    rankdir=TB;",
      "    Start [shape=oval, style=filled, fillcolor=lightgray, label=" ++ start ++ "];",
      "    Start -> " ++ labelText chart.start ++ ";"] ++
      chart.elements.map elementLine ++ ["\x7d"])

/-- The whole graph, headed by its number. -/
def graph (id : Int) (body : String) : String :=
  "// ID: " ++ toString id ++ "\n" ++ body

end Dot

end Dichotomy
