import Dichotomy.Assignment
import Dichotomy.Cell
import Dichotomy.Position

/-!
# Decision diagrams

A diagram is a leaf that holds a cell or a branch that tests one input and goes on to its high
side when the input is true and to its low side when it is false.

Every position carries a mark.  Diagrams without marks (`Tree`) are the plain mathematical
object; diagrams marked with numbers (`Node`) are the ones a node store hands out, the mark being
the node's number in the store.  `shape` forgets the marks, and two diagrams count as equal when
their shapes are equal.
-/

namespace Dichotomy

/-- A decision diagram whose positions carry marks of type `ι`. -/
inductive Diagram (ι : Type) where
  /-- The end of a path, with the cell it produces. -/
  | leaf (mark : ι) (cell : Cell)
  /-- A test of input `var`, with the diagrams for true (`high`) and false (`low`). -/
  | branch (mark : ι) (var : Int) (high low : Diagram ι)
  deriving DecidableEq, Inhabited

/-- A diagram without marks. -/
abbrev Tree := Diagram Unit

/-- A diagram whose nodes are numbered; a negative number means that no store holds the node. -/
abbrev Node := Diagram Int

namespace Diagram

variable {ι κ : Type}

/-- Changes every mark. -/
def map (f : ι → κ) : Diagram ι → Diagram κ
  | leaf mark cell => leaf (f mark) cell
  | branch mark var high low => branch (f mark) var (high.map f) (low.map f)

/-- The diagram with its marks forgotten. -/
def shape (d : Diagram ι) : Tree := d.map fun _ => ()

/-- The mark at the root. -/
def mark : Diagram ι → ι
  | leaf mark _ => mark
  | branch mark _ _ _ => mark

@[simp] theorem shape_leaf (mark : ι) (cell : Cell) : (leaf mark cell).shape = leaf () cell := rfl

@[simp] theorem shape_branch (mark : ι) (var : Int) (high low : Diagram ι) :
    (branch mark var high low).shape = branch () var high.shape low.shape := rfl

/-- A diagram without marks is its own shape. -/
@[simp] theorem shape_shape (d : Diagram ι) : d.shape.shape = d.shape := by
  induction d with
  | leaf mark cell => rfl
  | branch mark var high low ihHigh ihLow => simp [ihHigh, ihLow]

/-- The cell a diagram gives for an assignment, which has to cover the inputs tested on the
    path. -/
def eval (a : Assignment) : Diagram ι → Except Miss Cell
  | leaf _ cell => .ok cell
  | branch _ var high low =>
    match atPosition a var with
    | .ok true => high.eval a
    | .ok false => low.eval a
    | .error miss => .error miss

/-- The inputs tested anywhere in the diagram, each as often as it is tested. -/
def tests : Diagram ι → List Int
  | leaf _ _ => []
  | branch _ var high low => var :: (high.tests ++ low.tests)

/-- The inputs tested anywhere in the diagram, ascending and without repetition. -/
def testedInputs (d : Diagram ι) : List Int :=
  (d.tests.mergeSort (· ≤ ·)).eraseDups

/-- The number of branches. -/
def decisions : Diagram ι → Nat
  | leaf _ _ => 0
  | branch _ _ high low => 1 + high.decisions + low.decisions

/-! ## Marks do not matter -/

@[simp] theorem eval_shape (a : Assignment) (d : Diagram ι) : d.shape.eval a = d.eval a := by
  induction d with
  | leaf mark cell => rfl
  | branch mark var high low ihHigh ihLow =>
    rw [shape_branch, eval, eval, ihHigh, ihLow]

@[simp] theorem tests_shape (d : Diagram ι) : d.shape.tests = d.tests := by
  induction d with
  | leaf mark cell => rfl
  | branch mark var high low ihHigh ihLow =>
    rw [shape_branch, tests, tests, ihHigh, ihLow]

@[simp] theorem decisions_shape (d : Diagram ι) : d.shape.decisions = d.decisions := by
  induction d with
  | leaf mark cell => rfl
  | branch mark var high low ihHigh ihLow =>
    rw [shape_branch, decisions, decisions, ihHigh, ihLow]

end Diagram

end Dichotomy
