import Dichotomy.Fault
import Dichotomy.Table.Size
import Dichotomy.Text.Decimal

/-!
# Raw cells

A table may come as loose data: texts, numbers, truth values, records and nested rows of these.
Rows are flattened in order and every other entry becomes a cell by its text; entries equal to
the marker text leave the output free.  Cells that have been read already stay as they are.
-/

namespace Dichotomy

/-- An entry of a table before it has been read. -/
inductive RawCell where
  /-- A text. -/
  | text (content : String)
  /-- A whole number. -/
  | integer (value : Int)
  /-- A floating-point number. -/
  | real (value : Float)
  /-- A truth value. -/
  | truth (value : Bool)
  /-- No value. -/
  | nothing
  /-- A row of entries. -/
  | row (entries : List RawCell)
  /-- A record of named entries. -/
  | record (fields : List (String × RawCell))
  /-- A cell that has been read already. -/
  | known (cell : Cell)
  deriving Inhabited

namespace RawCell

mutual

/-- An entry written out so that texts are told from other values. -/
def description : RawCell → String
  | text content => quoted content
  | integer value => toString value
  | real value => floatText value
  | truth value => if value then "True" else "False"
  | nothing => "None"
  | row entries => "[" ++ ", ".intercalate (descriptions entries) ++ "]"
  | record fields => "\x7b" ++ ", ".intercalate (fieldDescriptions fields) ++ "\x7d"
  | known cell => cell.description

/-- The entries of a row, each written out. -/
def descriptions : List RawCell → List String
  | [] => []
  | entry :: rest => entry.description :: descriptions rest

/-- The fields of a record, each written out with its name. -/
def fieldDescriptions : List (String × RawCell) → List String
  | [] => []
  | (name, entry) :: rest => (quoted name ++ ": " ++ entry.description) :: fieldDescriptions rest

end

/-- The text of an entry: a text is its own text, all else is written out. -/
def asText : RawCell → String
  | text content => content
  | entry => entry.description

/-- What kind of value an entry is, in words. -/
def kind : RawCell → String
  | text _ => "str"
  | integer _ => "int"
  | real _ => "float"
  | truth _ => "bool"
  | nothing => "NoneType"
  | row _ => "list"
  | record _ => "dict"
  | known (.literal _) => "Literal"
  | known .dontCare => "DontCare"

end RawCell

/-- The cell that a text stands for: free if it is the marker, and else that literal. -/
def Cell.ofText (marker text : String) : Cell :=
  if text = marker then .dontCare else .literal text

namespace RawCell

mutual

/-- The cells of an entry; rows are flattened. -/
def cells (marker : String) : RawCell → List Cell
  | row entries => cellsOfAll marker entries
  | known cell => [cell]
  | text content => [Cell.ofText marker content]
  | integer value => [Cell.ofText marker (integer value).asText]
  | real value => [Cell.ofText marker (real value).asText]
  | truth value => [Cell.ofText marker (truth value).asText]
  | nothing => [Cell.ofText marker nothing.asText]
  | record fields => [Cell.ofText marker (record fields).asText]

/-- The cells of several entries, one after the other. -/
def cellsOfAll (marker : String) : List RawCell → List Cell
  | [] => []
  | entry :: rest => entry.cells marker ++ cellsOfAll marker rest

end

/-- The cells of a whole table.  A text is a table of its characters and a record a table of its
    names; a single value is none. -/
def tableCells (marker : String) : RawCell → Except Fault (List Cell)
  | row entries => .ok (cellsOfAll marker entries)
  | text content =>
    .ok (content.toList.map fun c => Cell.ofText marker (String.singleton c))
  | record fields => .ok (fields.map fun field => Cell.ofText marker field.1)
  | entry => .error (.notATable entry.kind)

end RawCell

/-- The table in loose data, whose cells have to be as many as a table has. -/
def Table.ofRaw (marker : String) (data : RawCell) : Except Fault Table := do
  Table.ofCells (← data.tableCells marker)

end Dichotomy
