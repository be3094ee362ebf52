import Dichotomy.Diagram.Chain
import Dichotomy.Names

/-!
# Flowcharts

A flowchart has a box for each result, a diamond for each combined condition and two edges out of
each diamond.  Shapes are labelled `0`, `1`, … in the order in which they are first seen.  Nodes
are told apart by their numbers, so a node that is reached on several paths is drawn once.
-/

namespace Dichotomy

/-- A part of a flowchart. -/
inductive Element where
  /-- A box with a result. -/
  | result (label : Nat) (cell : Cell)
  /-- A diamond that asks whether all of some inputs are true. -/
  | decision (label : Nat) (inputs : List Int) (text : String)
  /-- An edge that is taken when the condition at its source comes out as `taken`. -/
  | edge (source target : Nat) (taken : Bool)
  deriving DecidableEq

/-- A flowchart: the label it starts at, and its parts in the order they are drawn. -/
structure Flowchart where
  /-- The label of the first shape. -/
  start : Nat
  /-- All parts. -/
  elements : List Element

/-- A flowchart that is being drawn. -/
structure Sketch where
  /-- The numbers of the nodes that have labels; the label is the position. -/
  labelled : List Int
  /-- The numbers of the nodes that have been drawn. -/
  drawn : List Int
  /-- The parts drawn so far, the last one in front. -/
  elements : List Element

/-- A step of drawing, which may stop with a fault. -/
abbrev Drawing := StateT Sketch (Except Fault)

/-- How the label of a shape is written, in every notation. -/
def labelText (n : Nat) : String := "N" ++ toString n

namespace Drawing

/-- The label of a node; a node that is seen for the first time gets the next one. -/
def labelOf (node : Node) : Drawing Nat := fun sketch =>
  if node.mark < 0 then .error (.unnumbered node.shape)
  else
    match sketch.labelled.idxOf? node.mark with
    | some label => .ok (label, sketch)
    | none =>
      .ok (sketch.labelled.length, { sketch with labelled := sketch.labelled ++ [node.mark] })

/-- Marks a node as drawn; tells whether it had been drawn before. -/
def visit (node : Node) : Drawing Bool := fun sketch =>
  if sketch.drawn.contains node.mark then .ok (true, sketch)
  else .ok (false, { sketch with drawn := node.mark :: sketch.drawn })

/-- Draws a node unless it has been drawn before. -/
def once (node : Node) (drawing : Drawing Unit) : Drawing Unit := do
  if ← visit node then pure () else drawing

/-- Adds a part. -/
def add (element : Element) : Drawing Unit :=
  modify fun sketch => { sketch with elements := element :: sketch.elements }

/-- Draws a node that has its label already: what it does first, then all of the high side with
    the edge to it, then all of the low side with the edge to it. -/
def draw (names : Names) (node : Node) : Drawing Unit := once node do
  let label ← labelOf node
  match _hopening : node.opening with
  | .give cell => add (.result label cell)
  | .ask inputs high low =>
    add (.decision label inputs (← StateT.lift (names.joined " && " inputs)))
    let highLabel ← labelOf high
    draw names high
    add (.edge label highLabel true)
    let lowLabel ← labelOf low
    draw names low
    add (.edge label lowLabel false)
termination_by node.decisions
decreasing_by
  · exact (Diagram.decisions_lt_of_opening _hopening).1
  · exact (Diagram.decisions_lt_of_opening _hopening).2

end Drawing

/-- The flowchart of a diagram. -/
def Node.flowchart (names : Names) (root : Node) : Except Fault Flowchart := do
  let drawing : Drawing Nat := do
    let start ← Drawing.labelOf root
    Drawing.draw names root
    return start
  let (start, sketch) ← drawing.run ⟨[], [], []⟩
  return ⟨start, sketch.elements.reverse⟩

end Dichotomy
