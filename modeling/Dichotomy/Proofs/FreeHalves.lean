import Dichotomy.Proofs.BuiltForm
import Dichotomy.Proofs.EssentialInputs

/-!
# Free halves

If a table demands nothing of the rows in which an input has one of its values, the input is not
tested, wherever it stands in the order: each of its tests has a side that demands nothing and gives
way to the other one.  The same tree is built when these rows are filled with the cells of the other
half, since then both sides of each test are equal.  In both cases the input can be left out of the
order, and the tests before it, which do not see the difference, lead to the same trees.

## Main statements

- `Tree.ofCells_append_congr`: trees for orders that begin alike are compared behind their common
  beginning.
- `Table.mirrored`: a table with one half overwritten by the other.
- `Table.build_drops_free_input`: what is built for a table with a free half.
-/

namespace Dichotomy

/-! ## Trees without an input -/

namespace Tree

/-- Two trees that demand nothing are one. -/
theorem eq_of_isFree {t t' : Tree} (h : t.isFree = true) (h' : t'.isFree = true) : t = t' := by
  obtain ⟨_, rfl⟩ := Diagram.exists_leaf_of_isFree h
  obtain ⟨_, rfl⟩ := Diagram.exists_leaf_of_isFree h'
  rfl

/-- A high side that demands nothing gives way to the low side, whatever that is. -/
theorem reducedBranch_of_isFree_high {var : Int} {high low : Tree} (h : high.isFree = true) :
    Diagram.reducedBranch () var high low = low := by
  rcases Diagram.reducedBranch_cases () var high low with
    ⟨-, heq⟩ | ⟨hlow, heq⟩ | ⟨hshape, heq⟩ | ⟨hhigh, -, -, -⟩
  · exact heq
  · -- If both sides demand nothing, it does not matter which one is kept.
    exact heq.trans (eq_of_isFree h hlow)
  · exact heq.trans (by simpa using hshape)
  · exact absurd h hhigh

/-- So does a low side to the high side. -/
theorem reducedBranch_of_isFree_low {var : Int} {high low : Tree} (h : low.isFree = true) :
    Diagram.reducedBranch () var high low = high := by
  rcases Diagram.reducedBranch_cases () var high low with
    ⟨hhigh, heq⟩ | ⟨-, heq⟩ | ⟨-, heq⟩ | ⟨-, hlow, -, -⟩
  · exact heq.trans (eq_of_isFree h hhigh)
  · exact heq
  · exact heq
  · exact absurd h hlow

/-- Orders that begin alike have one tree if their rests have, for any values at the beginning. -/
theorem ofCells_append_congr {before rest rest' : List Int} {cells cells' : List Bool → Cell}
    (h : ∀ first, first.length = before.length →
      ofCells rest (fun values => cells (first ++ values)) =
        ofCells rest' fun values => cells' (first ++ values)) :
    ofCells (before ++ rest) cells = ofCells (before ++ rest') cells' := by
  induction before generalizing cells cells' with
  | nil => exact h [] rfl
  | cons var before ih =>
    have hside (value : Bool) :
        ofCells (before ++ rest) (fun values => cells (value :: values)) =
          ofCells (before ++ rest') fun values => cells' (value :: values) := by
      apply ih
      intro first hfirst
      exact h (value :: first) (congrArg Nat.succ hfirst)
    rw [List.cons_append, List.cons_append, ofCells, ofCells, hside true, hside false]

end Tree

/-- Cells along an order, with an input before the last ones given one value. -/
def fixedAt (position : Nat) (value : Bool) (cells : List Bool → Cell) (values : List Bool) :
    Cell :=
  cells (values.take position ++ value :: values.drop position)

theorem fixedAt_append {first rest : List Bool} {value : Bool} {cells : List Bool → Cell} :
    fixedAt first.length value cells (first ++ rest) = cells (first ++ value :: rest) := by
  simp [fixedAt]

namespace Tree

variable {before after : List Int} {var : Int} {cells : List Bool → Cell} {value : Bool}

/-- An input one of whose halves demands nothing is left out of the order. -/
theorem ofCells_of_free_half
    (h : ∀ first rest, first.length = before.length → rest.length = after.length →
      (cells (first ++ value :: rest)).isFree = true) :
    ofCells (before ++ var :: after) cells =
      ofCells (before ++ after) (fixedAt before.length (!value) cells) := by
  apply ofCells_append_congr
  intro first hfirst
  let side (value : Bool) : Tree := ofCells after fun rest => cells (first ++ value :: rest)
  have hfree : (side value).isFree = true :=
    isFree_ofCells.mpr fun rest hrest => h first rest hfirst hrest
  rw [← hfirst]
  simp only [fixedAt_append]
  cases value with
  | true => exact reducedBranch_of_isFree_high hfree
  | false => exact reducedBranch_of_isFree_low hfree

/-- So is an input both of whose halves are equal. -/
theorem ofCells_of_equal_halves
    (h : ∀ first rest, first.length = before.length → rest.length = after.length →
      cells (first ++ value :: rest) = cells (first ++ (!value) :: rest)) :
    ofCells (before ++ var :: after) cells =
      ofCells (before ++ after) (fixedAt before.length (!value) cells) := by
  apply ofCells_append_congr
  intro first hfirst
  let side (value : Bool) : Tree := ofCells after fun rest => cells (first ++ value :: rest)
  have hsides : side value = side (!value) :=
    ofCells_congr fun rest hrest => h first rest hfirst hrest
  have hboth : ∀ other, side other = side (!value) := by
    cases value <;> simp [hsides]
  rw [← hfirst]
  simp only [fixedAt_append]
  rw [ofCells]
  show Diagram.reducedBranch () var (side true) (side false) = side (!value)
  rw [hboth true, hboth false, Diagram.reducedBranch_self]

end Tree

/-! ## Overwritten halves -/

namespace Assignment

/-- Giving an input the value it has changes nothing. -/
theorem update_value_self {a : Assignment} {var : Int} (h : var ∈ inputNumbers a.length) :
    a.update var (a.value var) = a := by
  obtain ⟨hlow, hhigh⟩ := mem_inputNumbers.mp h
  have hlt : var.toNat < a.length := by omega
  rw [update, value, List.getD_eq_getElem _ _ hlt]
  exact List.set_getElem_self hlt

/-- A change at one input of an order changes one of the values along it. -/
theorem along_update_append {a : Assignment} {var : Int} {before after : List Int} (value : Bool)
    (hinputs : DistinctInputs a.length (before ++ var :: after)) :
    (a.update var value).along (before ++ var :: after) =
      a.along before ++ value :: a.along after := by
  obtain ⟨-, hafter, hdiffer⟩ := List.nodup_append.mp hinputs.nodup
  have hvar : var ∈ before ++ var :: after := List.mem_append_right _ List.mem_cons_self
  have hnot : var ∉ before := fun hmem => hdiffer var hmem var List.mem_cons_self rfl
  have hbefore : (a.update var value).along before = a.along before :=
    along_update value (hinputs.nonneg hvar)
      (fun x hx => hinputs.nonneg (List.mem_append_left _ hx)) hnot
  have hrest : DistinctInputs a.length (var :: after) :=
    ⟨hafter, fun x hx => hinputs.mem x (List.mem_append_right _ hx)⟩
  rw [along_append, hbefore, along_update_cons value hrest]

end Assignment

namespace Table

variable {table : Table} {var : Int} {value : Bool}

/-- The table in which every row where an input has one value is overwritten by the cell of the row
    that differs in this input only. -/
def mirrored (table : Table) (var : Int) (value : Bool) : Table where
  inputs := table.inputs
  cells := (Assignment.all table.inputs).map fun a =>
    if a.value var = value then table.cell (a.flip var).row else table.cell a.row
  length_cells := by simp [Assignment.all]

/-- The cells of an overwritten table are those of the rows where the input has the other value. -/
theorem cell_mirrored (hvar : var ∈ inputNumbers table.inputs) {a : Assignment}
    (ha : a.length = table.inputs) :
    (table.mirrored var value).cell a.row = table.cell (a.update var (!value)).row := by
  have hrow := Assignment.row_lt_of_length ha
  have hlt : a.row < (table.mirrored var value).cells.length := by
    rwa [(table.mirrored var value).length_cells]
  have hcell : (table.mirrored var value).cell a.row =
      if a.value var = value then table.cell (a.flip var).row else table.cell a.row := by
    rw [cell, List.getD_eq_getElem _ _ hlt]
    simp [mirrored, Assignment.all, Assignment.ofRow_row_of_length ha]
  rw [hcell]
  by_cases h : a.value var = value
  · rw [if_pos h, Assignment.flip, h]
  · have hother : (!value) = a.value var := by
      cases value <;> simpa using h
    rw [if_neg h, hother, Assignment.update_value_self (ha ▸ hvar)]

variable {before after : List Int}

/-- The values along an order are those of assignments that differ in one of its inputs. -/
theorem exists_cellAlong_append (horder : (before ++ var :: after).Perm (inputNumbers table.inputs))
    {first rest : List Bool} (hfirst : first.length = before.length)
    (hrest : rest.length = after.length) :
    ∃ a : Assignment, a.length = table.inputs ∧ ∀ (other : Table) (value : Bool),
      other.inputs = table.inputs →
        other.cellAlong (before ++ var :: after) (first ++ value :: rest) =
          other.cell (a.update var value).row := by
  have hlen : (first ++ true :: rest).length = (before ++ var :: after).length := by
    simp [hfirst, hrest]
  obtain ⟨a, ha, halong⟩ := Assignment.exists_along_of_perm horder hlen
  refine ⟨a, ha, fun other value hinputs => ?_⟩
  have hdistinct : DistinctInputs a.length (before ++ var :: after) := ha ▸ .of_perm horder
  -- The values before the input and those after it are the same for all its values.
  rw [Assignment.along_append, Assignment.along_cons] at halong
  obtain ⟨hbefore, hafter⟩ := List.append_inj halong (by simp [hfirst])
  have hvalues : (a.update var value).along (before ++ var :: after) = first ++ value :: rest := by
    rw [Assignment.along_update_append value hdistinct, hbefore, (List.cons.inj hafter).2]
  rw [← hvalues]
  exact cellAlong_along (hinputs ▸ horder) (by rw [Assignment.length_update, ha, hinputs])

/-- Along an order, an overwritten table has the cells that the table has for the other value. -/
theorem cellAlong_mirrored (horder : (before ++ var :: after).Perm (inputNumbers table.inputs))
    {first rest : List Bool} (hfirst : first.length = before.length)
    (hrest : rest.length = after.length) (other : Bool) :
    (table.mirrored var value).cellAlong (before ++ var :: after) (first ++ other :: rest) =
      table.cellAlong (before ++ var :: after) (first ++ (!value) :: rest) := by
  obtain ⟨a, ha, hcells⟩ := exists_cellAlong_append horder hfirst hrest
  have hvar : var ∈ inputNumbers table.inputs :=
    horder.mem_iff.mp (List.mem_append_right _ List.mem_cons_self)
  have htwice : (a.update var other).update var (!value) = a.update var (!value) := List.set_set _
  rw [hcells (table.mirrored var value) other rfl, hcells table (!value) rfl,
    cell_mirrored hvar ((Assignment.length_update ..).trans ha), htwice]

theorem isFree_cellAlong_of_half
    (horder : (before ++ var :: after).Perm (inputNumbers table.inputs))
    (hfree : ∀ a : Assignment, a.length = table.inputs → a.value var = value →
      table.cells[a.row]? = some .dontCare)
    {first rest : List Bool} (hfirst : first.length = before.length)
    (hrest : rest.length = after.length) :
    (table.cellAlong (before ++ var :: after) (first ++ value :: rest)).isFree = true := by
  obtain ⟨a, ha, hcells⟩ := exists_cellAlong_append horder hfirst hrest
  have hvar : var ∈ inputNumbers a.length :=
    ha ▸ horder.mem_iff.mp (List.mem_append_right _ List.mem_cons_self)
  have hlength : (a.update var value).length = table.inputs :=
    (Assignment.length_update ..).trans ha
  have hcell := hfree _ hlength (Assignment.value_update_self value hvar)
  rw [getElem?_cells (Assignment.row_lt_of_length hlength), Option.some.injEq] at hcell
  rw [hcells table value rfl, hcell]
  rfl

/-- What is built for a table with a free half, without the input in question. -/
theorem shape_root_of_free_half
    (horder : (before ++ var :: after).Perm (inputNumbers table.inputs))
    (hfree : ∀ a : Assignment, a.length = table.inputs → a.value var = value →
      table.cells[a.row]? = some .dontCare) :
    (table.root (before ++ var :: after)).shape = Tree.ofCells (before ++ after)
      (fixedAt before.length (!value) (table.cellAlong (before ++ var :: after))) := by
  rw [shape_root horder]
  apply Tree.ofCells_of_free_half
  intro first rest hfirst hrest
  exact isFree_cellAlong_of_half horder hfree hfirst hrest

/-- What is built when the half is overwritten: the tree is the same. -/
theorem shape_root_mirrored (horder : (before ++ var :: after).Perm (inputNumbers table.inputs)) :
    ((table.mirrored var value).root (before ++ var :: after)).shape =
      Tree.ofCells (before ++ after)
        (fixedAt before.length (!value) (table.cellAlong (before ++ var :: after))) := by
  have horder' : (before ++ var :: after).Perm (inputNumbers (table.mirrored var value).inputs) :=
    horder
  have hhalves (first rest : List Bool) (hfirst : first.length = before.length)
      (hrest : rest.length = after.length) :
      (table.mirrored var value).cellAlong (before ++ var :: after) (first ++ value :: rest) =
        (table.mirrored var value).cellAlong (before ++ var :: after)
          (first ++ (!value) :: rest) := by
    rw [cellAlong_mirrored horder hfirst hrest, cellAlong_mirrored horder hfirst hrest]
  rw [shape_root horder', Tree.ofCells_of_equal_halves hhalves]
  apply Tree.ofCells_congr
  intro values hlen
  rw [List.length_append] at hlen
  exact cellAlong_mirrored horder (by simp [hlen]) (by simp [hlen]) (!value)

/-- **A free half drops its input**: if a table demands nothing of the rows in which an input has a
    value, the diagram built for any order does not test the input.  It has the shape of the one
    that is built when each of these rows is overwritten by the cell of the row that differs in this
    input only. -/
theorem build_drops_free_input (table : Table) {var : Int} (hvar : var ∈ inputNumbers table.inputs)
    (value : Bool)
    (hfree : ∀ a : Assignment, a.length = table.inputs → a.value var = value →
      table.cells[a.row]? = some .dontCare)
    {order : List Int} (horder : order.Perm (inputNumbers table.inputs)) :
    ∃ root root', table.build order = .ok root ∧
      (table.mirrored var value).build order = .ok root' ∧
      var ∉ root.testedInputs ∧ root.sameShape root' = true := by
  obtain ⟨before, after, rfl⟩ := List.append_of_mem (horder.mem_iff.mpr hvar)
  have horder' : (before ++ var :: after).Perm (inputNumbers (table.mirrored var value).inputs) :=
    horder
  have hshape := shape_root_of_free_half horder hfree
  refine ⟨_, _, build_eq_root horder, build_eq_root horder', ?_, ?_⟩
  · -- The tree follows the order without the input, which stands there once.
    rw [Diagram.mem_testedInputs, ← Diagram.tests_shape, hshape]
    intro hmem
    have hrest := (Tree.follows_ofCells _ _).tests_subset hmem
    have hnodup := (DistinctInputs.of_perm horder).nodup
    exact (List.nodup_middle.mp hnodup).notMem hrest
  · rw [Diagram.sameShape_iff, hshape, shape_root_mirrored horder]

/-- The middle one of three inputs, tested last, and nothing is demanded where it is false. -/
theorem build_drops_free_input_middle :
    let table : Table := ⟨3, [.literal "A", .literal "B", .dontCare, .dontCare, .literal "A",
      .dontCare, .dontCare, .dontCare], rfl⟩
    1 ∈ inputNumbers 3 ∧ ([2, 0, 1] : List Int).Perm (inputNumbers 3) ∧
      (∀ a : Assignment, a.length = 3 → a.value 1 = false → table.cells[a.row]? = some .dontCare) ∧
      (table.mirrored 1 false).cells = [.literal "A", .literal "B", .literal "A", .literal "B",
        .literal "A", .dontCare, .literal "A", .dontCare] ∧
      ∃ root root', table.build [2, 0, 1] = .ok root ∧
        (table.mirrored 1 false).build [2, 0, 1] = .ok root' ∧
        1 ∉ root.testedInputs ∧ root.sameShape root' = true := by
  intro table
  have hvar : (1 : Int) ∈ inputNumbers 3 := by decide
  have horder : ([2, 0, 1] : List Int).Perm (inputNumbers 3) := by decide
  have hfree : ∀ a : Assignment, a.length = 3 → a.value 1 = false →
      table.cells[a.row]? = some .dontCare := by
    intro a ha hfalse
    have hall : ∀ a ∈ Assignment.all 3, a.value 1 = false →
        table.cells[a.row]? = some .dontCare := by decide
    exact hall a (Assignment.mem_all.mpr ha) hfalse
  exact ⟨hvar, horder, hfree, rfl, build_drops_free_input table hvar false hfree horder⟩

end Table

end Dichotomy
