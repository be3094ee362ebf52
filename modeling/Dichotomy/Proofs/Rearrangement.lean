import Dichotomy.Proofs.Outcomes
import Dichotomy.Proofs.Row
import Dichotomy.Table.Order
import Dichotomy.Table.Size
import Mathlib.Data.List.GetD
import Mathlib.Data.List.Sort

/-!
# Rearranged tables

A table is rearranged for an order of its inputs by moving cells: the cell of an assignment comes
to stand in the row whose values are those of the assignment along the order.  Nothing is lost
and no lookup misses.

## Main statements

- `isOrder_iff_perm`: the orders that are accepted are the permutations of the inputs.
- `Table.rearranged_eq`: rearranging a table for such an order succeeds.
- `sourceRow_row_along`, `Table.cellAlong_along`: where each cell comes to stand.
-/

namespace Dichotomy

/-! ## Orders -/

private theorem pairwise_inputNumbers (n : Int) : (inputNumbers n).Pairwise (· ≤ ·) := by
  rw [inputNumbers, List.pairwise_map]
  exact List.pairwise_le_range.imp fun h => Int.ofNat_le.mpr h

/-- Sorting numbers puts them in ascending order. -/
theorem pairwise_mergeSort_le (numbers : List Int) :
    (numbers.mergeSort (· ≤ ·)).Pairwise (· ≤ ·) := by
  refine (List.pairwise_mergeSort ?_ ?_ numbers).imp (by simp)
  · intro a b c hab hbc
    simp only [decide_eq_true_eq] at *
    omega
  · intro a b
    simp only [Bool.or_eq_true, decide_eq_true_eq]
    omega

private theorem mergeSort_eq_inputNumbers_iff {n : Int} {order : List Int} :
    order.mergeSort (· ≤ ·) = inputNumbers n ↔ order.Perm (inputNumbers n) := by
  have hperm := List.mergeSort_perm order (fun a b => decide (a ≤ b))
  constructor
  · intro h
    rw [← h]
    exact hperm.symm
  · intro h
    -- Two sorted lists with the same entries are equal.
    exact (hperm.trans h).eq_of_pairwise (fun a b _ _ => Int.le_antisymm)
      (pairwise_mergeSort_le order) (pairwise_inputNumbers n)

/-- A list is an order of the inputs exactly when it is a permutation of them. -/
theorem isOrder_iff_perm {n : Nat} {order : List Int} :
    isOrder n order = true ↔ order.Perm (inputNumbers n) := by
  rw [isOrder, Bool.and_eq_true, decide_eq_true_eq, decide_eq_true_eq,
    mergeSort_eq_inputNumbers_iff]
  refine ⟨And.right, fun h => ⟨?_, h⟩⟩
  rw [h.length_eq, length_inputNumbers]

theorem length_of_perm_inputNumbers {n : Nat} {order : List Int}
    (h : order.Perm (inputNumbers n)) : order.length = n := by
  rw [h.length_eq, length_inputNumbers, Int.toNat_natCast]

/-! ## Rows of given inputs -/

/-- It does not matter in which order the inputs of a row are given. -/
theorem rowOfInputs_perm {n : Nat} {pairs pairs' : List (Int × Bool)} (h : pairs.Perm pairs') :
    rowOfInputs n pairs = rowOfInputs n pairs' := by
  induction h with
  | nil => rfl
  | cons pair _ ih => rw [rowOfInputs, rowOfInputs, ih]
  | swap first second rest => simp only [rowOfInputs]; omega
  | trans _ _ ih ih' => exact ih.trans ih'

/-- The inputs from `done` on, given in ascending order with the values of an assignment, make up
    the row of the rest of the assignment. -/
private theorem rowOfInputs_range' (a done rest : Assignment) (h : a = done ++ rest) :
    rowOfInputs a.length ((List.range' done.length rest.length).map fun (i : Nat) =>
      ((i : Int), a.value i)) = rest.row := by
  induction rest generalizing done with
  | nil => rfl
  | cons value rest ih =>
    have hvalue : a.value (done.length : Nat) = value := by
      subst h
      simp [Assignment.value, List.getD_eq_getElem?_getD]
    -- The place value of an input counts the rows of the inputs behind it.
    have hplace : a.length - 1 - ((done.length : Nat) : Int).toNat = rest.length := by
      subst h
      simp
    have hrest := ih (done ++ [value]) (by rw [h, List.append_assoc]; rfl)
    rw [List.length_append, List.length_singleton] at hrest
    rw [List.length_cons, List.range'_succ, List.map_cons, rowOfInputs, hvalue, hplace, hrest]
    rfl

/-- The row whose values along an order are those of an assignment came from the row of that
    assignment. -/
theorem sourceRow_row_along {n : Nat} {order : List Int} (h : order.Perm (inputNumbers n))
    {a : Assignment} (ha : a.length = n) :
    sourceRow n order (Assignment.row (a.along order)) = a.row := by
  subst ha
  have hlen : (a.along order).length = a.length := by
    rw [Assignment.length_along, length_of_perm_inputNumbers h]
  -- The new row gives the inputs in the sequence of the order, the old one in ascending order.
  have hpairs : order.zip (a.along order) = order.map fun var => (var, a.value var) := by
    have hzip : order.zip (a.along order) = (order.map id).zip (order.map a.value) := by
      rw [List.map_id, Assignment.along]
    rw [hzip, List.zip_map']
    rfl
  rw [sourceRow, Assignment.ofRow_row_of_length hlen, hpairs, rowOfInputs_perm (h.map _),
    inputNumbers, List.map_map, Int.toNat_natCast, List.range_eq_range']
  exact rowOfInputs_range' a [] a rfl

/-- The values along an order of all inputs determine an assignment. -/
theorem Assignment.along_inj {n : Nat} {order : List Int} (h : order.Perm (inputNumbers n))
    {a b : Assignment} (ha : a.length = n) (hb : b.length = n)
    (hab : a.along order = b.along order) : a = b := by
  refine Assignment.row_inj ha hb ?_
  rw [← sourceRow_row_along h ha, hab, sourceRow_row_along h hb]

/-- The values of a row lie along an order of some assignment. -/
theorem Assignment.exists_row_along {n : Nat} {order : List Int} (h : order.Perm (inputNumbers n))
    {row : Nat} (hrow : row < rowCount n) :
    ∃ a : Assignment, a.length = n ∧ Assignment.row (a.along order) = row := by
  have hlen : (Assignment.ofRow n row).length = order.length := by
    rw [Assignment.length_ofRow, length_of_perm_inputNumbers h]
  obtain ⟨a, ha, halong⟩ := Assignment.exists_along_of_perm h hlen
  exact ⟨a, ha, by rw [halong, Assignment.row_ofRow hrow]⟩

/-- Every row of a rearranged table comes from a row of the table. -/
theorem sourceRow_lt {n : Nat} {order : List Int} (h : order.Perm (inputNumbers n)) {row : Nat}
    (hrow : row < rowCount n) : sourceRow n order row < rowCount n := by
  obtain ⟨a, ha, rfl⟩ := Assignment.exists_row_along h hrow
  rw [sourceRow_row_along h ha]
  exact Assignment.row_lt_of_length ha

/-! ## Cells -/

/-- Looking up a position that lies in a list succeeds. -/
theorem atPosition_natCast {α : Type} (xs : List α) {i : Nat} (h : i < xs.length) :
    atPosition xs (i : Int) = .ok xs[i] := by
  simp [atPosition, entryAt?, h]

namespace Table

/-- The cell in a row. -/
def cell (table : Table) (row : Nat) : Cell := table.cells.getD row .dontCare

/-- The cell of the assignment with the given values along an order. -/
def cellAlong (table : Table) (order : List Int) (values : List Bool) : Cell :=
  table.cell (sourceRow table.inputs order (Assignment.row values))

theorem getElem?_cells {table : Table} {row : Nat} (h : row < rowCount table.inputs) :
    table.cells[row]? = some (table.cell row) := by
  rw [← table.length_cells] at h
  rw [cell, List.getD_eq_getElem _ _ h, List.getElem?_eq_getElem h]

theorem cellAlong_along {table : Table} {order : List Int}
    (h : order.Perm (inputNumbers table.inputs)) {a : Assignment} (ha : a.length = table.inputs) :
    table.cellAlong order (a.along order) = table.cell a.row := by
  rw [cellAlong, sourceRow_row_along h ha]

/-- A table can be rearranged for every order of its inputs. -/
theorem rearranged_eq {table : Table} {order : List Int}
    (h : order.Perm (inputNumbers table.inputs)) :
    rearranged table.inputs order table.cells =
      .ok ((List.range (rowCount table.inputs)).map fun row =>
        table.cell (sourceRow table.inputs order row)) := by
  rw [rearranged, if_pos (isOrder_iff_perm.mpr h), table.length_cells]
  refine mapM_eq_ok fun row hrow => ?_
  have hlt := sourceRow_lt h (List.mem_range.mp hrow)
  have hcell := getElem?_cells hlt
  rw [← table.length_cells] at hlt
  rw [List.getElem?_eq_getElem hlt, Option.some.injEq] at hcell
  rw [Int.toNat_natCast, atPosition_natCast table.cells hlt, hcell]

end Table

end Dichotomy
