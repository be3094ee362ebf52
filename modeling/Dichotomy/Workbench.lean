import Dichotomy.Build

/-!
# Workbench

A workbench is a store together with the nodes that have been asked for, each under a handle.
Nodes may also be made loose, outside the store; they carry the number `-1`.  A request that
fails yields no handle, though nodes it had made by then stay in the store.
-/

namespace Dichotomy

/-- A node under a handle.  Stored nodes are told apart by their numbers and loose ones by a
    serial number. -/
structure Handle where
  /-- The node. -/
  node : Node
  /-- The serial number of the node if it is loose. -/
  serial : Nat

/-- Whether two handles hold one and the same node. -/
def Handle.isSame (x y : Handle) : Bool :=
  x.node.mark == y.node.mark && (0 ≤ x.node.mark || x.serial == y.serial)

/-- A request for a node; the sides of a branch are given by handles. -/
inductive Request where
  /-- A leaf of the store. -/
  | leaf (cell : Cell)
  /-- A branch of the store. -/
  | branch (var high low : Int)
  /-- A loose leaf. -/
  | looseLeaf (cell : Cell)
  /-- A loose branch. -/
  | looseBranch (var high low : Int)
  /-- A reduced decision, whose branch goes to the store if there is one. -/
  | reduced (var high low : Int)
  /-- A reduced decision, whose branch is loose if there is one. -/
  | looseReduced (var high low : Int)
  /-- The diagram of a rearranged table. -/
  | built (cells : List Cell) (order : List Int)
  /-- The stored node with a number. -/
  | stored (number : Int)

/-- A store and the nodes that have been asked for. -/
structure Workbench where
  /-- The store. -/
  store : Store
  /-- The nodes asked for, in order. -/
  handles : List Handle

namespace Workbench

/-- The workbench with nothing on it. -/
def empty : Workbench := ⟨Store.empty, []⟩

/-- What lies under a handle. -/
def handle (w : Workbench) (position : Int) : Except Fault Handle :=
  match atPosition w.handles position with
  | .ok handle => .ok handle
  | .error miss => .error (.noEntry miss)

/-- The two sides of a decision. -/
def sides (w : Workbench) (high low : Int) : Except Fault (Handle × Handle) := do
  return (← w.handle high, ← w.handle low)

/-- Puts a node under the next handle, which is also its serial number if it is loose. -/
def keep (w : Workbench) (result : Node × Store) : Except Fault Handle × Workbench :=
  let handle : Handle := ⟨result.1, w.handles.length⟩
  (.ok handle, ⟨result.2, w.handles ++ [handle]⟩)

/-- Puts something that has a handle already under one more. -/
def keepAgain (w : Workbench) (handle : Handle) : Except Fault Handle × Workbench :=
  (.ok handle, ⟨w.store, w.handles ++ [handle]⟩)

/-- The reduced decision over two handles; `make` makes a branch if one is needed. -/
def reduceBy (w : Workbench) (make : Handle → Handle → Node × Store) (high low : Int) :
    Except Fault Handle × Workbench :=
  match w.sides high low with
  | .error fault => (.error fault, w)
  | .ok (high, low) =>
    match Reduction.of high.node low.node with
    | .keepHigh => w.keepAgain high
    | .keepLow => w.keepAgain low
    | .split => w.keep (make high low)

/-- Fulfils a request. -/
def fulfil (w : Workbench) : Request → Except Fault Handle × Workbench
  | .leaf cell => w.keep (w.store.addLeaf cell)
  | .looseLeaf cell => w.keep (.leaf (-1) cell, w.store)
  | .branch var high low =>
    match w.sides high low with
    | .error fault => (.error fault, w)
    | .ok (high, low) => w.keep (w.store.addBranch var high.node low.node)
  | .looseBranch var high low =>
    match w.sides high low with
    | .error fault => (.error fault, w)
    | .ok (high, low) => w.keep (.branch (-1) var high.node low.node, w.store)
  | .reduced var high low =>
    w.reduceBy (fun high low => w.store.addBranch var high.node low.node) high low
  | .looseReduced var high low =>
    w.reduceBy (fun high low => (.branch (-1) var high.node low.node, w.store)) high low
  | .built cells order =>
    match (build order 0 cells).run.run w.store with
    | (.ok node, store) => w.keep (node, store)
    | (.error fault, store) => (.error fault, ⟨store, w.handles⟩)
  | .stored number =>
    match w.store.get number with
    | .ok node => w.keep (node, w.store)
    | .error miss => (.error (.noEntry miss), w)

end Workbench

end Dichotomy
