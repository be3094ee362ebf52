import Dichotomy.Diagram.Basic
import Dichotomy.Text.Quoted

/-!
# Descriptions

A cell or diagram written out in full, for messages that have to name it.  Marks are not shown.
-/

namespace Dichotomy

/-- A cell written out in full. -/
def Cell.description : Cell → String
  | literal text => "Literal(text=" ++ quoted text ++ ")"
  | dontCare => "DontCare()"

/-- A diagram written out in full. -/
def Diagram.description {ι : Type} : Diagram ι → String
  | leaf _ cell => "Leaf(value=" ++ cell.description ++ ")"
  | branch _ var high low =>
    "Branch(var_index=" ++ toString var ++ ", high=" ++ high.description ++ ", low=" ++
      low.description ++ ")"

end Dichotomy
