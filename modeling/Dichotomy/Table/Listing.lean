import Dichotomy.Assignment
import Dichotomy.Text.Column
import Dichotomy.Transcript

/-!
# Listing of the rows

Prints every combination of the inputs in the order of the rows, and beside it the output cell if
outputs are given.
-/

namespace Dichotomy

open Transcript

/-- The heading of an input column; columns without a name are numbered. -/
def columnHeading (names : List String) (column : Nat) : String :=
  names.getD column s!"in{column}"

/-- Prints the rows over `inputs` inputs. -/
def sayRows (inputs : Int) (outputs : Option (List Cell)) (names : List String) :
    Transcript Unit := do
  let headings := (List.range inputs.toNat).map (columnHeading names)
  let width := (headings.map String.length).foldl max 1
  let columns := fun texts => " ".intercalate (texts.map (alignRight width))
  let ending := if outputs.isSome then " | Output" else ""
  let header := alignRight 5 "Row" ++ " | " ++ columns headings ++ ending
  say header
  say (rule header.length '-')
  (combinations inputs "T" "F").zipIdx.forM fun (marks, row) => do
    let line := alignRight 5 (toString row) ++ " | " ++ columns marks
    match outputs with
    | none => say line
    | some cells =>
      match cells[row]? with
      | some cell => say (line ++ " | " ++ cell.text)
      | none => throw (.noEntry .outside)

end Dichotomy
