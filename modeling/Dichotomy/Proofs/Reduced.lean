import Dichotomy.Proofs.Rearrangement
import Dichotomy.Build

/-!
# Built diagrams are reduced trees

Building works on lists of cells, halves them and numbers nodes on the way.  None of this matters
for the shape of the result: it is the tree `Tree.ofCells`, which tests the inputs of an order one
after the other and reduces every decision, for the cells given by the values along the order.

## Main statements

- `exists_build`: building never misses an entry and yields that tree.
- `Table.exists_build`: the same for the whole table.
- `Tree.isFree_ofCells`: the tree is a free leaf only if all cells are free.
-/

namespace Dichotomy

/-! ## Reduced trees -/

/-- A diagram without marks has no marks to forget. -/
@[simp] theorem Tree.shape_eq (t : Tree) : t.shape = t := by
  induction t with
  | leaf => rfl
  | branch mark var high low ihHigh ihLow => rw [Diagram.shape_branch, ihHigh, ihLow]

/-- The reduced tree that tests the inputs of an order one after the other and ends in the cells
    given by their values. -/
def Tree.ofCells : List Int → (List Bool → Cell) → Tree
  | [], cells => .leaf () (cells [])
  | var :: order, cells =>
    .reducedBranch () var (Tree.ofCells order fun values => cells (true :: values))
      (Tree.ofCells order fun values => cells (false :: values))

/-- Only the cells of as many values as there are inputs matter. -/
theorem Tree.ofCells_congr {order : List Int} {cells cells' : List Bool → Cell}
    (h : ∀ values, values.length = order.length → cells values = cells' values) :
    Tree.ofCells order cells = Tree.ofCells order cells' := by
  induction order generalizing cells cells' with
  | nil => rw [Tree.ofCells, Tree.ofCells, h [] rfl]
  | cons var order ih =>
    have hside (value : Bool) :
        Tree.ofCells order (fun values => cells (value :: values)) =
          Tree.ofCells order fun values => cells' (value :: values) :=
      ih fun values hlen => h (value :: values) (congrArg Nat.succ hlen)
    rw [Tree.ofCells, Tree.ofCells, hside true, hside false]

namespace Diagram

variable {ι : Type}

/-- Two equal sides make the test pointless. -/
theorem reducedBranch_self (mark : ι) (var : Int) (d : Diagram ι) :
    reducedBranch mark var d d = d := by
  have hsame : d.sameShape d = true := Diagram.sameShape_iff.mpr rfl
  rw [reducedBranch, Reduction.of, hsame]
  cases d.isFree <;> rfl

/-- Different sides that both demand something have to be told apart. -/
theorem reducedBranch_of_ne {var : Int} {high low : Tree} (hhigh : high.isFree = false)
    (hlow : low.isFree = false) (hne : high ≠ low) :
    reducedBranch () var high low = branch () var high low := by
  have hsame : high.sameShape low = false := by
    rw [Bool.eq_false_iff]
    intro h
    have hshape := Diagram.sameShape_iff.mp h
    rw [Tree.shape_eq, Tree.shape_eq] at hshape
    exact hne hshape
  rw [reducedBranch, Reduction.of, hhigh, hlow, hsame]
  rfl

/-- What becomes of a decision: a side that demands nothing gives way to the other one, sides of one
    shape are one side, and else there is a test. -/
theorem reducedBranch_cases (mark : ι) (var : Int) (high low : Diagram ι) :
    (high.isFree = true ∧ reducedBranch mark var high low = low) ∨
      (low.isFree = true ∧ reducedBranch mark var high low = high) ∨
      (high.shape = low.shape ∧ reducedBranch mark var high low = high) ∨
      (¬ high.isFree = true ∧ ¬ low.isFree = true ∧ high.shape ≠ low.shape ∧
        reducedBranch mark var high low = branch mark var high low) := by
  rw [reducedBranch, Reduction.of]
  cases hhigh : high.isFree <;> cases hlow : low.isFree
  · by_cases hshape : high.shape = low.shape
    · rw [sameShape_iff.mpr hshape]
      exact .inr (.inr (.inl ⟨hshape, rfl⟩))
    · rw [Bool.eq_false_iff.mpr (sameShape_iff.not.mpr hshape)]
      exact .inr (.inr (.inr ⟨Bool.false_ne_true, Bool.false_ne_true, hshape, rfl⟩))
  · exact .inr (.inl ⟨rfl, rfl⟩)
  · exact .inl ⟨rfl, rfl⟩
  · exact .inr (.inl ⟨rfl, rfl⟩)

theorem isFree_reducedBranch (mark : ι) (var : Int) (high low : Diagram ι) :
    (reducedBranch mark var high low).isFree = (high.isFree && low.isFree) := by
  rw [reducedBranch, Reduction.of]
  cases hhigh : high.isFree <;> cases hlow : low.isFree
  · -- A test is no leaf, and a side that is kept is as free as it was.
    cases high.sameShape low
    · rfl
    · exact hhigh
  · exact hhigh
  · exact hlow
  · exact hhigh

end Diagram

/-- A reduced tree is a free leaf exactly when all its cells are free. -/
theorem Tree.isFree_ofCells {order : List Int} {cells : List Bool → Cell} :
    (Tree.ofCells order cells).isFree = true ↔
      ∀ values, values.length = order.length → (cells values).isFree = true := by
  induction order generalizing cells with
  | nil =>
    constructor
    · intro h values hlen
      rw [List.length_eq_zero_iff.mp hlen]
      exact h
    · intro h
      exact h [] rfl
  | cons var order ih =>
    rw [Tree.ofCells, Diagram.isFree_reducedBranch, Bool.and_eq_true, ih, ih]
    constructor
    · rintro ⟨htrue, hfalse⟩ values hlen
      match values, hlen with
      | true :: values, hlen => exact htrue values (Nat.succ.inj hlen)
      | false :: values, hlen => exact hfalse values (Nat.succ.inj hlen)
    · intro h
      exact ⟨fun values hlen => h (true :: values) (congrArg Nat.succ hlen),
        fun values hlen => h (false :: values) (congrArg Nat.succ hlen)⟩

/-! ## Building -/

/-- A computation that goes on after a success goes on from the store it left. -/
theorem Building.bind_eq {α β : Type} {x : Building α} {f : α → Building β} {s s' : Store} {a : α}
    (h : x.run.run s = (.ok a, s')) : (x >>= f).run.run s = (f a).run.run s' := by
  rw [ExceptT.run_bind, StateT.run_bind, h]
  rfl

theorem Store.shape_addReduced (s : Store) (var : Int) (high low : Node) :
    (s.addReduced var high low).1.shape =
      Diagram.reducedBranch () var high.shape low.shape := by
  rw [Store.addReduced, Diagram.reducedBranch, Reduction.of_shape]
  cases Reduction.of high low <;> rfl

private theorem build_singleton {order : List Int} {level : Int} {cell : Cell}
    (hfault : buildFault? order level [cell] = none) (s : Store) :
    (build order level [cell]).run.run s = (.ok (s.addLeaf cell).1, (s.addLeaf cell).2) := by
  unfold build
  simp only [hfault]
  rfl

private theorem build_halves {order : List Int} {level : Int} {cells : List Cell}
    (hfault : buildFault? order level cells = none) (hlen : 2 ≤ cells.length) {var : Int}
    (hvar : atPosition order level = .ok var) {s s₁ s₂ : Store} {high low : Node}
    (hhigh : (build order (level + 1) (cells.take (cells.length / 2))).run.run s = (.ok high, s₁))
    (hlow : (build order (level + 1) (cells.drop (cells.length / 2))).run.run s₁ = (.ok low, s₂)) :
    (build order level cells).run.run s =
      (.ok (s₂.addReduced var high low).1, (s₂.addReduced var high low).2) := by
  unfold build
  simp only [hfault, if_pos hlen]
  rw [Building.bind_eq hhigh, Building.bind_eq hlow, hvar]
  rfl

private theorem buildFault?_succ (order : List Int) (level : Nat) (cells : List Cell) :
    buildFault? order ((level : Int) + 1) cells = none := by
  rw [buildFault?, if_neg (by omega)]

/-- Building below the levels `done` of an order succeeds for as many cells as the rest of the
    order demands, and yields their reduced tree. -/
theorem exists_build {done rest : List Int} {cells : List Cell}
    (hlen : cells.length = rowCount rest.length)
    (hfault : buildFault? (done ++ rest) done.length cells = none) (s : Store) :
    ∃ node s', (build (done ++ rest) done.length cells).run.run s = (.ok node, s') ∧
      node.shape = Tree.ofCells rest fun values =>
        cells.getD (Assignment.row values) .dontCare := by
  induction rest generalizing done cells s with
  | nil =>
    obtain ⟨cell, rfl⟩ := List.length_eq_one_iff.mp hlen
    exact ⟨_, _, build_singleton hfault s, rfl⟩
  | cons var rest ih =>
    rw [List.length_cons, rowCount_succ] at hlen
    have hpos := rowCount_pos rest.length
    have hhalf : cells.length / 2 = rowCount rest.length := by omega
    have horder : done ++ var :: rest = (done ++ [var]) ++ rest := by simp
    have hlevel : (done.length : Int) + 1 = ((done ++ [var]).length : Nat) := by simp
    have hvar : atPosition (done ++ var :: rest) (done.length : Int) = .ok var := by
      rw [atPosition_natCast _ (by simp)]
      simp
    have hside : ∀ (half : List Cell) (s : Store), half.length = rowCount rest.length →
        ∃ node s', (build (done ++ var :: rest) (done.length + 1) half).run.run s = (.ok node, s') ∧
          node.shape = Tree.ofCells rest fun values =>
            half.getD (Assignment.row values) .dontCare := by
      intro half s hlength
      rw [horder, hlevel]
      apply ih hlength
      rw [← hlevel]
      exact buildFault?_succ _ _ _
    -- The two halves are built one after the other, the second one in the store the first left.
    obtain ⟨high, s₁, hhigh, hhighShape⟩ :=
      hside (cells.take (cells.length / 2)) s (by rw [List.length_take]; omega)
    obtain ⟨low, s₂, hlow, hlowShape⟩ :=
      hside (cells.drop (cells.length / 2)) s₁ (by rw [List.length_drop]; omega)
    refine ⟨_, _, build_halves hfault (by omega) hvar hhigh hlow, ?_⟩
    rw [Store.shape_addReduced, hhighShape, hlowShape, Tree.ofCells]
    congr 1
    · -- The first half holds the rows of the values that begin with true.
      refine Tree.ofCells_congr fun values hvalues => ?_
      have hlt := Assignment.row_lt values
      rw [hvalues] at hlt
      rw [Assignment.row_cons_true, List.getD_eq_getElem?_getD, List.getD_eq_getElem?_getD,
        List.getElem?_take_of_lt (by omega)]
    · refine Tree.ofCells_congr fun values hvalues => ?_
      rw [Assignment.row_cons_false, hvalues, List.getD_eq_getElem?_getD,
        List.getD_eq_getElem?_getD, List.getElem?_drop, hhalf]

namespace Table

/-- Every order of the inputs gives a diagram, the reduced tree of the cells along the order. -/
theorem exists_build {table : Table} {order : List Int}
    (h : order.Perm (inputNumbers table.inputs)) :
    ∃ root, table.build order = .ok root ∧
      root.shape = Tree.ofCells order (table.cellAlong order) := by
  have hlength := length_of_perm_inputNumbers h
  have hfault : buildFault? ([] ++ order) (([] : List Int).length : Nat)
      ((List.range (rowCount table.inputs)).map fun row =>
        table.cell (sourceRow table.inputs order row)) = none := by
    -- What is checked at the top is right for a table and an order of its inputs.
    have hvalid : isOrder table.inputs order = true := isOrder_iff_perm.mpr h
    simp [buildFault?, hvalid, hlength]
  obtain ⟨root, s, hbuild, hshape⟩ := Dichotomy.exists_build (by simp [hlength]) hfault Store.empty
  refine ⟨root, ?_, ?_⟩
  · rw [Table.build, rearranged_eq h]
    exact congrArg Prod.fst hbuild
  · rw [hshape]
    refine Tree.ofCells_congr fun values hvalues => ?_
    have hlt : Assignment.row values < rowCount table.inputs := by
      rw [← hlength, ← hvalues]
      exact Assignment.row_lt values
    rw [List.getD_eq_getElem _ _ (by simpa using hlt), List.getElem_map, List.getElem_range,
      cellAlong]

end Table

end Dichotomy
