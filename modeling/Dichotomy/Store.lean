import Dichotomy.Diagram.Reduction
import Dichotomy.Fault

/-!
# The node store

A store hands out the nodes of a diagram and numbers them in the order of their making.  Nodes
are only ever added, so a number names one node for good, and a branch is always younger than its
sides.
-/

namespace Dichotomy

/-- The nodes made so far, each at the position that is its number. -/
structure Store where
  /-- The nodes, oldest first. -/
  nodes : Array Node

/-- A computation that makes nodes and may stop with a fault.  Nodes made before the fault stay
    in the store. -/
abbrev Building := ExceptT Fault (StateM Store)

namespace Store

/-- The store without nodes. -/
def empty : Store := ⟨#[]⟩

/-- The number of nodes. -/
def size (s : Store) : Nat := s.nodes.size

/-- The node with a signed number, counted from the end when negative. -/
def get (s : Store) (i : Int) : Except Miss Node := atPosition s.nodes.toList i

/-- Makes a leaf. -/
def addLeaf (s : Store) (cell : Cell) : Node × Store :=
  let node := .leaf s.nodes.size cell
  (node, ⟨s.nodes.push node⟩)

/-- Makes a branch. -/
def addBranch (s : Store) (var : Int) (high low : Node) : Node × Store :=
  let node := .branch s.nodes.size var high low
  (node, ⟨s.nodes.push node⟩)

/-- Makes the decision on `var` over two sides; only a real test adds a node. -/
def addReduced (s : Store) (var : Int) (high low : Node) : Node × Store :=
  match Reduction.of high low with
  | .keepHigh => (high, s)
  | .keepLow => (low, s)
  | .split => s.addBranch var high low

/-- Makes all nodes of a diagram, the high side first, then the low side, then the root. -/
def addTree {ι : Type} (s : Store) : Diagram ι → Node × Store
  | .leaf _ cell => s.addLeaf cell
  | .branch _ var high low =>
    let (high, s) := s.addTree high
    let (low, s) := s.addTree low
    s.addBranch var high low

end Store

namespace Building

/-- Changes the store by an operation that yields a node. -/
def make (operation : Store → Node × Store) : Building Node :=
  fun s => let (node, s') := operation s; (.ok node, s')

end Building

end Dichotomy
