import Dichotomy.Export.Code
import Dichotomy.Text.Escape

/-!
# JavaScript

Functions with braces.  Texts are single-quoted literals in which a backslash stands before each
backslash and each single quote; a free cell is `null`.
-/

namespace Dichotomy

namespace JavaScript

/-- A character inside a literal. -/
def writeChar (c : Char) : List Char :=
  if c = '\\' || c = '\'' then ['\\', c] else [c]

/-- The expression for a cell. -/
def value : Cell → String
  | .literal text => "'" ++ escaped writeChar text ++ "'"
  | .dontCare => "null"

/-- How conditions, blocks and results are written. -/
def style : CodeStyle where
  indent := "  "
  conjunction := " && "
  opening condition := "if (" ++ condition ++ ") \x7b"
  closing := some "\x7d"
  value := value
  returning expression := "return " ++ expression ++ ";"

/-- The whole function, headed by its number. -/
def function (name : String) (names : List String) (id : Int) (body : String) : String :=
  "// ID: " ++ toString id ++ "\nfunction " ++ name ++ "(" ++ parameters "...input" names ++
    ") \x7b\n" ++ body ++ "\x7d"

end JavaScript

end Dichotomy
