import Dichotomy.Proofs.OrderedStores
import Dichotomy.Workbench

/-!
# Runs on one store

Leaves, branches, reduced decisions and whole diagrams are asked of one store in any sequence, the
nodes that are handed in being nodes that were handed out before.  Whatever fails on the way, the
store is ordered after each operation and no node is ever changed or removed, so that a number
names a node, and a position in each diagram that has been built.

## Main statements

- `Workbench.IsSound.perform`: what one operation keeps.
- `Workbench.IsSound.after`: what a run keeps.
- `Workbench.numbers_name_nodes`: runs from the beginning.
-/

namespace Dichotomy

/-! ## Operations -/

/-- An operation on the store of a workbench.  Nodes are handed in by the positions of their
    handles. -/
inductive Operation where
  /-- Makes a leaf. -/
  | leaf (cell : Cell)
  /-- Makes a branch. -/
  | branch (var high low : Int)
  /-- Makes a decision, reduced. -/
  | reduced (var high low : Int)
  /-- Builds the diagram of some cells from a level of an order on. -/
  | built (order : List Int) (level : Int) (cells : List Cell)
  /-- Fetches a node by its number. -/
  | stored (number : Int)

namespace Workbench

/-- Builds the diagram of some cells from a level of an order on. -/
def buildAt (w : Workbench) (order : List Int) (level : Int) (cells : List Cell) :
    Except Fault Handle × Workbench :=
  match (build order level cells).run.run w.store with
  | (.ok node, store) => w.keep (node, store)
  | (.error fault, store) => (.error fault, ⟨store, w.handles⟩)

/-- Performs an operation. -/
def perform (w : Workbench) : Operation → Except Fault Handle × Workbench
  | .leaf cell => w.fulfil (.leaf cell)
  | .branch var high low => w.fulfil (.branch var high low)
  | .reduced var high low => w.fulfil (.reduced var high low)
  | .built order level cells => w.buildAt order level cells
  | .stored number => w.fulfil (.stored number)

/-- The workbench after some operations, whether they succeed or fail. -/
def after (w : Workbench) (operations : List Operation) : Workbench :=
  operations.foldl (fun w operation => (w.perform operation).2) w

variable {w w' : Workbench}

/-! ## What an operation keeps -/

/-- The store is ordered, and what has been handed out is stored. -/
structure IsSound (w : Workbench) : Prop where
  ordered : w.store.IsOrdered
  stored : ∀ handle ∈ w.handles, handle.node.IsStored w.store

/-- A workbench has become another one that is as sound, and no node has been changed. -/
structure Grows (w w' : Workbench) : Prop where
  sound : w'.IsSound
  grown : w.store.Extends w'.store

end Workbench

theorem mem_of_entryAt? {α : Type} {xs : List α} {i : Int} {x : α} (h : entryAt? xs i = some x) :
    x ∈ xs := by
  rw [entryAt?] at h
  split at h
  · exact List.mem_of_getElem? h
  · split at h
    · exact List.mem_of_getElem? h
    · cases h

theorem mem_of_atPosition {α : Type} {xs : List α} {i : Int} {x : α}
    (h : atPosition xs i = .ok x) : x ∈ xs := by
  rw [atPosition] at h
  split at h
  next hentry => exact Except.ok.inj h ▸ mem_of_entryAt? hentry
  next => cases h

/-- Nodes are fetched by their numbers. -/
theorem Store.get_natCast {s : Store} {number : Nat} {node : Node}
    (h : s.nodes[number]? = some node) : s.get number = .ok node := by
  obtain ⟨hlt, hget⟩ := Array.getElem?_eq_some_iff.mp h
  rw [Store.get, atPosition_natCast _ (by simpa using hlt), Array.getElem_toList, hget]

namespace Workbench

variable {w w' : Workbench}

theorem mem_handles_of_sides {high low : Int} {sides : Handle × Handle}
    (h : w.sides high low = .ok sides) : sides.1 ∈ w.handles ∧ sides.2 ∈ w.handles := by
  have hhandle {position : Int} {handle : Handle} (h : w.handle position = .ok handle) :
      handle ∈ w.handles := by
    rw [Workbench.handle] at h
    split at h
    next hentry => exact Except.ok.inj h ▸ mem_of_atPosition hentry
    next => cases h
  rw [Workbench.sides] at h
  obtain ⟨first, hhigh, h⟩ := exists_of_bind_eq_ok h
  obtain ⟨second, hlow, h⟩ := exists_of_bind_eq_ok h
  obtain rfl := Except.ok.inj h
  exact ⟨hhandle hhigh, hhandle hlow⟩

namespace IsSound

theorem empty : Workbench.empty.IsSound :=
  ⟨Store.isOrdered_empty, fun _ h => absurd h List.not_mem_nil⟩

theorem refl (h : w.IsSound) : w.Grows w := ⟨h, .refl _⟩

/-- Handles stay good when the store grows. -/
theorem grow (h : w.IsSound) {s : Store} (hgrown : w.store.Extends s) (hordered : s.IsOrdered) :
    w.Grows ⟨s, w.handles⟩ :=
  ⟨⟨hordered, fun handle hhandle => (h.stored handle hhandle).extend hgrown⟩, hgrown⟩

/-- One more stored node is handed out. -/
theorem keep (h : w.IsSound) {node : Node} {s : Store} (hgrown : w.store.Extends s)
    (hordered : s.IsOrdered) (hstored : node.IsStored s) : w.Grows (w.keep (node, s)).2 := by
  refine ⟨⟨hordered, fun handle hhandle => ?_⟩, hgrown⟩
  rcases List.mem_append.mp hhandle with hhandle | hhandle
  · exact (h.grow hgrown hordered).sound.stored handle hhandle
  · obtain rfl := List.mem_singleton.mp hhandle
    exact hstored

/-- A node is handed out once more. -/
theorem keepAgain (h : w.IsSound) {handle : Handle} (hmem : handle ∈ w.handles) :
    w.Grows (w.keepAgain handle).2 := by
  refine ⟨⟨h.ordered, fun other hother => ?_⟩, .refl _⟩
  rcases List.mem_append.mp hother with hother | hother
  · exact h.stored other hother
  · obtain rfl := List.mem_singleton.mp hother
    exact h.stored _ hmem

/-- Building keeps a workbench sound, and what it yields is new. -/
theorem buildAt (h : w.IsSound) (order : List Int) (level : Int) (cells : List Cell) :
    w.Grows (w.buildAt order level cells).2 ∧
      ∀ handle, (w.buildAt order level cells).1 = .ok handle →
        handle.node.IsStored (w.buildAt order level cells).2.store ∧
          handle.node.IsFresh w.store.size := by
  obtain ⟨⟨hgrown, hordered⟩, hyields⟩ := ends_build order level cells h.ordered
  rw [Workbench.buildAt]
  cases hrun : (build order level cells).run.run w.store with
  | mk outcome s =>
    rw [hrun] at hgrown hordered hyields
    cases outcome with
    | error fault => exact ⟨h.grow hgrown hordered, fun _ hhandle => nomatch hhandle⟩
    | ok node =>
      refine ⟨h.keep hgrown hordered (hyields node rfl).1, fun handle hhandle => ?_⟩
      obtain rfl := Except.ok.inj hhandle
      exact hyields node rfl

/-- **One operation**, whether it succeeds or fails, keeps a workbench sound and changes no node. -/
theorem perform (h : w.IsSound) (operation : Operation) : w.Grows (w.perform operation).2 := by
  cases operation with
  | leaf cell =>
    exact h.keep (w.store.extends_push _) (h.ordered.addLeaf cell) (w.store.isStored_addLeaf cell)
  | branch var high low =>
    rw [Workbench.perform, fulfil]
    split
    next => exact h.refl
    next first second hsides =>
      obtain ⟨hfirst, hsecond⟩ := mem_handles_of_sides hsides
      exact h.keep (w.store.extends_push _)
        (h.ordered.addBranch var (h.stored _ hfirst) (h.stored _ hsecond))
        (Store.isStored_addBranch var (h.stored _ hfirst) (h.stored _ hsecond))
  | reduced var high low =>
    rw [Workbench.perform, fulfil, reduceBy]
    split
    next => exact h.refl
    next first second hsides =>
      obtain ⟨hfirst, hsecond⟩ := mem_handles_of_sides hsides
      cases Reduction.of first.node second.node with
      | keepHigh => exact h.keepAgain hfirst
      | keepLow => exact h.keepAgain hsecond
      | split =>
        exact h.keep (w.store.extends_push _)
          (h.ordered.addBranch var (h.stored _ hfirst) (h.stored _ hsecond))
          (Store.isStored_addBranch var (h.stored _ hfirst) (h.stored _ hsecond))
  | built order level cells => exact (h.buildAt order level cells).1
  | stored number =>
    rw [Workbench.perform, fulfil]
    split
    next node hget =>
      obtain ⟨position, hposition⟩ := List.getElem?_of_mem (mem_of_atPosition hget)
      rw [Array.getElem?_toList] at hposition
      exact h.keep (.refl _) h.ordered (h.ordered.isStored hposition)
    next => exact h.refl

/-- **A run** keeps a workbench sound and changes no node. -/
theorem after (h : w.IsSound) (operations : List Operation) : w.Grows (w.after operations) := by
  induction operations generalizing w with
  | nil => exact h.refl
  | cons operation operations ih =>
    have hfirst := h.perform operation
    have hrest := ih hfirst.sound
    exact ⟨hrest.sound, hfirst.grown.trans hrest.grown⟩

end IsSound

/-! ## Runs from the beginning -/

/-- **Numbers name nodes**: after any operations on one store, each node stands at its number
    behind its children, and did so at every moment, in whatever store this one has grown from; no
    operation that follows changes or removes a node; a diagram that is built next is made of nodes
    that were not there before, no two of its positions with one number; and of all that has been
    handed out, equal numbers tell equal nodes. -/
theorem numbers_name_nodes (operations : List Operation) :
    let w := Workbench.empty.after operations
    (∀ s : Store, s.Extends w.store → ∀ i < s.size, ∃ node, s.get i = .ok node ∧ node.mark = i ∧
      ∀ child ∈ node.children, 0 ≤ child.mark ∧ child.mark < i ∧
        s.get child.mark = .ok child) ∧
    (∀ more, w.store.size ≤ (w.after more).store.size ∧
      ∀ i < w.store.size, (w.after more).store.get i = w.store.get i) ∧
    (∀ order level cells handle w', w.perform (.built order level cells) = (.ok handle, w') →
      handle.node.marks.Nodup ∧ ∀ part ∈ handle.node.parts, w.store.size ≤ part.mark ∧
        part.mark < w'.store.size ∧ w'.store.get part.mark = .ok part) ∧
    ∀ handle ∈ w.handles, ∀ other ∈ w.handles, ∀ part ∈ handle.node.parts,
      ∀ otherPart ∈ other.node.parts, part.mark = otherPart.mark → part = otherPart := by
  intro w
  have hsound : w.IsSound := (IsSound.empty.after operations).sound
  refine ⟨fun s hgrown i hi => ?_, fun more => ?_, ?_, ?_⟩
  · have hordered := hsound.ordered.of_extends hgrown
    have hnode := Array.getElem?_eq_getElem hi
    refine ⟨s.nodes[i], Store.get_natCast hnode, hordered.mark i _ hnode, fun child hchild => ?_⟩
    obtain ⟨older, holder, hget⟩ := hordered.children i _ hnode child hchild
    rw [hordered.mark older child hget]
    exact ⟨Int.natCast_nonneg _, Int.ofNat_lt.mpr holder, Store.get_natCast hget⟩
  · have hgrown := (hsound.after more).grown
    refine ⟨hgrown.size_le, fun i hi => ?_⟩
    have hnode := Array.getElem?_eq_getElem hi
    rw [Store.get_natCast hnode, Store.get_natCast (hgrown i _ hnode)]
  · intro order level cells handle w' hbuilt
    obtain ⟨-, hyields⟩ := hsound.buildAt order level cells
    rw [show w.buildAt order level cells = (.ok handle, w') from hbuilt] at hyields
    obtain ⟨hstored, hfresh⟩ := hyields handle rfl
    refine ⟨hfresh.nodup, fun part hpart => ?_⟩
    have hmark : part.mark ∈ handle.node.marks := by
      rw [Diagram.marks_eq_map_parts]
      exact List.mem_map_of_mem hpart
    obtain ⟨hnonneg, hget⟩ := hstored part hpart
    have hpartGet := Store.get_natCast hget
    rw [Int.toNat_of_nonneg hnonneg] at hpartGet
    exact ⟨hfresh.le _ hmark, (hstored.mark_lt hmark).2, hpartGet⟩
  · intro handle hhandle other hother part hpart otherPart hotherPart hmark
    have hget := (hsound.stored handle hhandle part hpart).2
    rw [hmark, (hsound.stored other hother otherPart hotherPart).2] at hget
    exact (Option.some.inj hget).symm

/-- Two builds that fail, one of them after it has made three nodes, and one that succeeds behind
    them. -/
theorem numbers_name_nodes_interleaved :
    let w := Workbench.empty.after [.leaf (.literal "A"), .built [0] 0 [.literal "A"],
      .built [0] 3 [.literal "B", .dontCare, .literal "B"]]
    w.store.size = 4 ∧ ∃ handle w',
      w.perform (.built [0] 0 [.literal "A", .literal "B"]) = (.ok handle, w') ∧
        handle.node.marks.Nodup ∧ ∀ part ∈ handle.node.parts, 4 ≤ part.mark ∧
          w'.store.get part.mark = .ok part := by
  intro w
  have hsize : w.store.size = 4 := by decide +kernel
  have hbuilt : (w.perform (.built [0] 0 [.literal "A", .literal "B"])).1.toOption.isSome := by
    decide +kernel
  obtain ⟨-, -, hfresh, -⟩ := numbers_name_nodes [.leaf (.literal "A"),
    .built [0] 0 [.literal "A"], .built [0] 3 [.literal "B", .dontCare, .literal "B"]]
  cases hresult : w.perform (.built [0] 0 [.literal "A", .literal "B"]) with
  | mk outcome w' =>
    rw [hresult] at hbuilt
    cases outcome with
    | error fault => cases hbuilt
    | ok handle =>
      obtain ⟨hnodup, hparts⟩ := hfresh _ _ _ handle w' hresult
      refine ⟨hsize, handle, w', rfl, hnodup, fun part hpart => ?_⟩
      obtain ⟨hle, -, hget⟩ := hparts part hpart
      rw [show (Workbench.empty.after _).store.size = 4 from hsize] at hle
      exact ⟨hle, hget⟩

end Workbench

end Dichotomy
