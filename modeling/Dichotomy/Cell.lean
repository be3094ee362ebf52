/-!
# Output cells

The output column of a decision table holds one cell per row.  A cell either demands a literal
text or leaves the output free.  The free cell is a value of its own, so no text, whatever it
says, can be mistaken for it.
-/

namespace Dichotomy

/-- One cell of the output column. -/
inductive Cell where
  /-- The row must produce exactly this text. -/
  | literal (text : String)
  /-- The row may produce anything. -/
  | dontCare
  deriving DecidableEq, Inhabited

namespace Cell

/-- Whether the cell leaves the output free. -/
def isFree : Cell → Bool
  | literal _ => false
  | dontCare => true

/-- The cell as listings and messages show it. -/
def text : Cell → String
  | literal t => t
  | dontCare => "don't care"

end Cell

end Dichotomy
