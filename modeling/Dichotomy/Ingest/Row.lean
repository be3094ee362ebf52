import Dichotomy.Fault
import Dichotomy.Text.Blank

/-!
# Rows of a table file

A line is cut into fields at commas if it holds any, else at tabs if it holds any, else at
spaces.  A field that begins with a double quote goes on to the next double quote that is not
doubled, delimiters included; spaces before a field are skipped.  Cells are fields without the
blanks at their ends, and empty cells at the end of a row are dropped.
-/

namespace Dichotomy

namespace Row

/-- Where the reader of a line stands. -/
inductive Place where
  /-- Before the first character of the line. -/
  | lineStart
  /-- Before the first character of a field. -/
  | fieldStart
  /-- Within a field that is not quoted. -/
  | inField
  /-- Within quotes. -/
  | inQuotes
  /-- After a double quote within quotes. -/
  | afterQuote
  /-- After a line break. -/
  | afterBreak
  deriving DecidableEq

/-- A line that is being read. -/
structure Scan where
  /-- Where the reader stands. -/
  place : Place
  /-- The characters of the current field. -/
  field : Array Char
  /-- The finished fields, the last one in front. -/
  finished : List String

namespace Scan

/-- The scan of a line of which nothing has been read. -/
def start : Scan := ⟨.lineStart, #[], []⟩

/-- Finishes the current field. -/
def close (s : Scan) (place : Place) : Scan :=
  ⟨place, #[], String.ofList s.field.toList :: s.finished⟩

/-- Moves on without reading anything into the field. -/
def moveTo (s : Scan) (place : Place) : Scan := { s with place := place }

/-- Reads a character into the field, which has a greatest length. -/
def push (s : Scan) (place : Place) (c : Char) : Except Fault Scan :=
  if Fault.fieldLimit ≤ s.field.size then .error .longField
  else .ok ⟨place, s.field.push c, s.finished⟩

/-- Whether a character breaks the line within a row. -/
def isBreak (c : Char) : Bool := c = '\n' || c = '\r'

/-- Reads one character. -/
def step (delimiter : Char) (s : Scan) (c : Char) : Except Fault Scan :=
  match s.place with
  | .lineStart =>
    if isBreak c then .ok (s.moveTo .afterBreak)
    else if c = '"' then .ok (s.moveTo .inQuotes)
    else if c = ' ' then .ok (s.moveTo .fieldStart)
    else if c = delimiter then .ok (s.close .fieldStart)
    else s.push .inField c
  | .fieldStart =>
    if isBreak c then .ok (s.close .afterBreak)
    else if c = '"' then .ok (s.moveTo .inQuotes)
    else if c = ' ' then .ok s
    else if c = delimiter then .ok (s.close .fieldStart)
    else s.push .inField c
  | .inField =>
    if isBreak c then .ok (s.close .afterBreak)
    else if c = delimiter then .ok (s.close .fieldStart)
    else s.push .inField c
  | .inQuotes =>
    if c = '"' then .ok (s.moveTo .afterQuote) else s.push .inQuotes c
  | .afterQuote =>
    if c = '"' then s.push .inQuotes c
    else if c = delimiter then .ok (s.close .fieldStart)
    else if isBreak c then .ok (s.close .afterBreak)
    else s.push .inField c
  | .afterBreak =>
    if isBreak c then .ok s else .error .brokenRow

/-- The fields of a line that has been read to its end. -/
def fields (s : Scan) : List String :=
  match s.place with
  | .lineStart | .afterBreak => s.finished.reverse
  | _ => (s.close .fieldStart).finished.reverse

end Scan

/-- The fields of a line with the given delimiter. -/
def fields (delimiter : Char) (line : String) : Except Fault (List String) := do
  return (← line.toList.foldlM (Scan.step delimiter) Scan.start).fields

/-- The delimiter of a line. -/
def delimiterOf (line : String) : Char :=
  if line.toList.contains ',' then ','
  else if line.toList.contains '\t' then '\t'
  else ' '

/-- A list of cells without the empty ones at its end. -/
def dropTrailingEmpty (cells : List String) : List String :=
  (cells.reverse.dropWhile (· = "")).reverse

/-- The cells of one line. -/
def cells (line : String) : Except Fault (List String) :=
  let delimiter := delimiterOf line
  let content := if delimiter = ' ' then trimmed line else line
  if trimmed content = "" then .ok []
  else do
    return dropTrailingEmpty ((← fields delimiter content).map trimmed)

end Row

end Dichotomy
