import Dichotomy.Export.Code
import Dichotomy.Text.Quoted

/-!
# Python

Functions with blocks by indentation.  Texts are quoted so that they can be read back; a free
cell is `None`.
-/

namespace Dichotomy

namespace Python

/-- The expression for a cell. -/
def value : Cell → String
  | .literal text => quoted text
  | .dontCare => "None"

/-- How conditions, blocks and results are written. -/
def style : CodeStyle where
  indent := "    "
  conjunction := " and "
  opening condition := "if " ++ condition ++ ":"
  closing := none
  value := value
  returning expression := "return " ++ expression

/-- The whole function, headed by its number. -/
def function (name : String) (names : List String) (id : Int) (body : String) : String :=
  "# ID: " ++ toString id ++ "\ndef " ++ name ++ "(" ++ parameters "*input" names ++ "):\n" ++ body

end Python

end Dichotomy
