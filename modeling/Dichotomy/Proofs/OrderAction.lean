import Dichotomy.Proofs.Rearrangement
import Mathlib.Data.List.Perm.Subperm

/-!
# Orders acting on tables

An order of the inputs tells which input stands at each level.  Orders are composed by looking up
the levels of one in the other (`inputAt`), and rearranging a table for one after the other is
rearranging it for the composed order.  What a rearranged table holds is a permutation of what the
table holds, and the inverse order brings it back.

## Main statements

- `sourceRow_sourceRow`, `sourceRow_inputNumbers`: rows under composed orders and under no change.
- `perm_map_sourceRow`: every row is used once.
- `inverseOrder`: the levels of the inputs, which is an order, too.
- `Table.rearranging_acts`: what follows for the cells of a table.
-/

namespace Dichotomy

/-! ## Levels and inputs -/

/-- The input at a level of an order.  What is no level stays as it is. -/
def inputAt (order : List Int) (level : Int) : Int :=
  if 0 ≤ level then order.getD level.toNat level else level

section Levels

variable {n : Nat} {sigma tau : List Int}

theorem inputAt_eq_getElem {level : Int} (hlow : 0 ≤ level) (hhigh : level.toNat < sigma.length) :
    inputAt sigma level = sigma[level.toNat] := by
  rw [inputAt, if_pos hlow, List.getD_eq_getElem _ _ hhigh]

theorem inputAt_of_notMem (hsigma : sigma.Perm (inputNumbers n)) {level : Int}
    (h : level ∉ inputNumbers n) : inputAt sigma level = level := by
  rw [inputAt]
  split
  next hlow =>
    have hlength := length_of_perm_inputNumbers hsigma
    rw [mem_inputNumbers] at h
    exact List.getD_eq_default _ _ (by omega)
  next => rfl

theorem map_inputAt_inputNumbers (hsigma : sigma.Perm (inputNumbers n)) :
    (inputNumbers n).map (inputAt sigma) = sigma := by
  have hlength := length_of_perm_inputNumbers hsigma
  refine List.ext_getElem (by simp [hlength]) fun i hi hi' => ?_
  simp only [inputNumbers, List.getElem_map, List.getElem_range]
  exact inputAt_eq_getElem (Int.natCast_nonneg i) (by simpa using hi')

/-- The inputs of an order are inputs. -/
theorem inputAt_mem (hsigma : sigma.Perm (inputNumbers n)) {level : Int}
    (h : level ∈ inputNumbers n) : inputAt sigma level ∈ inputNumbers n := by
  have hmem : inputAt sigma level ∈ (inputNumbers n).map (inputAt sigma) := List.mem_map_of_mem h
  rw [map_inputAt_inputNumbers hsigma] at hmem
  exact hsigma.mem_iff.mp hmem

theorem inputAt_injective (hsigma : sigma.Perm (inputNumbers n)) :
    Function.Injective (inputAt sigma) := by
  have hnodup : ((inputNumbers n).map (inputAt sigma)).Nodup := by
    rw [map_inputAt_inputNumbers hsigma]
    exact hsigma.nodup_iff.mpr (nodup_inputNumbers n)
  -- Levels go to inputs, one each, and everything else stays outside of them.
  intro level level' h
  by_cases hlevel : level ∈ inputNumbers n <;> by_cases hlevel' : level' ∈ inputNumbers n
  · exact List.inj_on_of_nodup_map hnodup hlevel hlevel' h
  · have hmem := inputAt_mem hsigma hlevel
    rw [h, inputAt_of_notMem hsigma hlevel'] at hmem
    exact absurd hmem hlevel'
  · have hmem := inputAt_mem hsigma hlevel'
    rw [← h, inputAt_of_notMem hsigma hlevel] at hmem
    exact absurd hmem hlevel
  · rwa [inputAt_of_notMem hsigma hlevel, inputAt_of_notMem hsigma hlevel'] at h

/-- An order of the levels gives an order of the inputs. -/
theorem perm_map_inputAt (hsigma : sigma.Perm (inputNumbers n)) (htau : tau.Perm (inputNumbers n)) :
    (tau.map (inputAt sigma)).Perm (inputNumbers n) := by
  have hmap := htau.map (inputAt sigma)
  rw [map_inputAt_inputNumbers hsigma] at hmap
  exact hmap.trans hsigma

/-- A value at a level is the value of the input at that level. -/
theorem Assignment.value_along (hsigma : sigma.Perm (inputNumbers n)) {level : Int}
    (h : level ∈ inputNumbers n) (a : Assignment) :
    Assignment.value (a.along sigma) level = a.value (inputAt sigma level) := by
  obtain ⟨hlow, hhigh⟩ := mem_inputNumbers.mp h
  have hlength := length_of_perm_inputNumbers hsigma
  have hlt : level.toNat < sigma.length := by omega
  rw [inputAt_eq_getElem hlow hlt, Assignment.value, Assignment.along,
    List.getD_eq_getElem _ _ (by rwa [List.length_map]), List.getElem_map]

theorem Assignment.along_along (hsigma : sigma.Perm (inputNumbers n))
    (htau : tau.Perm (inputNumbers n)) (a : Assignment) :
    Assignment.along (a.along sigma) tau = a.along (tau.map (inputAt sigma)) := by
  have hmap : a.along (tau.map (inputAt sigma)) =
      tau.map fun level => a.value (inputAt sigma level) := List.map_map
  rw [hmap]
  refine List.map_congr_left fun level hlevel => ?_
  exact value_along hsigma (htau.mem_iff.mp hlevel) a

theorem Assignment.along_inputNumbers {a : Assignment} (h : a.length = n) :
    a.along (inputNumbers n) = a := by
  subst h
  refine List.ext_getElem (by simp) fun i hi hi' => ?_
  simp [along, inputNumbers, value, hi']

/-- Values that are those of the inputs at the levels of an order lie along that order. -/
theorem Assignment.eq_along (hsigma : sigma.Perm (inputNumbers n)) {a b : Assignment}
    (hb : b.length = n)
    (h : ∀ level ∈ inputNumbers n, b.value level = a.value (inputAt sigma level)) :
    b = a.along sigma := by
  calc b = (inputNumbers n).map b.value := (along_inputNumbers hb).symm
    _ = (inputNumbers n).map (a.value ∘ inputAt sigma) := List.map_congr_left h
    _ = ((inputNumbers n).map (inputAt sigma)).map a.value := List.map_map.symm
    _ = a.along sigma := by rw [map_inputAt_inputNumbers hsigma, along]

/-! ## Rows -/

/-- **Composition**: a row that comes from a row that comes from another row. -/
theorem sourceRow_sourceRow (hsigma : sigma.Perm (inputNumbers n))
    (htau : tau.Perm (inputNumbers n)) {row : Nat} (hrow : row < rowCount n) :
    sourceRow n sigma (sourceRow n tau row) = sourceRow n (tau.map (inputAt sigma)) row := by
  -- The row has the values of some assignment, first along `sigma` and then along `tau`.
  have hboth := perm_map_inputAt hsigma htau
  obtain ⟨a, ha, rfl⟩ := Assignment.exists_row_along hboth hrow
  have hlength : (a.along sigma).length = n := by
    rw [Assignment.length_along, length_of_perm_inputNumbers hsigma]
  have htwice : sourceRow n tau (Assignment.row (a.along (tau.map (inputAt sigma)))) =
      Assignment.row (a.along sigma) := by
    rw [← Assignment.along_along hsigma htau]
    exact sourceRow_row_along htau hlength
  rw [htwice, sourceRow_row_along hsigma ha, sourceRow_row_along hboth ha]

/-- The ascending order leaves every row where it is. -/
theorem sourceRow_inputNumbers {row : Nat} (hrow : row < rowCount n) :
    sourceRow n (inputNumbers n) row = row := by
  obtain ⟨a, ha, rfl⟩ := Assignment.exists_row_along (.refl (inputNumbers n)) hrow
  rw [sourceRow_row_along (.refl _) ha, Assignment.along_inputNumbers ha]

/-- **Every row is used once**. -/
theorem perm_map_sourceRow (hsigma : sigma.Perm (inputNumbers n)) :
    ((List.range (rowCount n)).map (sourceRow n sigma)).Perm (List.range (rowCount n)) := by
  have hnodup : ((List.range (rowCount n)).map (sourceRow n sigma)).Nodup := by
    apply List.nodup_range.map_on
    intro row hrow row' hrow' h
    obtain ⟨a, ha, rfl⟩ := Assignment.exists_row_along hsigma (List.mem_range.mp hrow)
    obtain ⟨b, hb, rfl⟩ := Assignment.exists_row_along hsigma (List.mem_range.mp hrow')
    rw [sourceRow_row_along hsigma ha, sourceRow_row_along hsigma hb] at h
    rw [Assignment.row_inj ha hb h]
  have hsub : (List.range (rowCount n)).map (sourceRow n sigma) ⊆ List.range (rowCount n) := by
    intro source hsource
    obtain ⟨row, hrow, rfl⟩ := List.mem_map.mp hsource
    exact List.mem_range.mpr (sourceRow_lt hsigma (List.mem_range.mp hrow))
  apply (hnodup.subperm hsub).perm_of_length_le
  rw [List.length_map]

/-! ## The inverse order -/

/-- The levels of all inputs, in ascending order of the inputs. -/
def inverseOrder (order : List Int) : List Int :=
  (inputNumbers order.length).map fun var => (order.idxOf var : Int)

/-- Every input stands at the level that the inverse order gives. -/
theorem map_inputAt_inverseOrder (hsigma : sigma.Perm (inputNumbers n)) :
    (inverseOrder sigma).map (inputAt sigma) = inputNumbers n := by
  rw [inverseOrder, length_of_perm_inputNumbers hsigma, List.map_map]
  refine (List.map_congr_left fun var hvar => ?_).trans (List.map_id _)
  have hlt : sigma.idxOf var < sigma.length :=
    List.idxOf_lt_length_iff.mpr (hsigma.mem_iff.mpr hvar)
  have hat := inputAt_eq_getElem (Int.natCast_nonneg (sigma.idxOf var)) (by simpa using hlt)
  simpa using hat

theorem perm_inverseOrder (hsigma : sigma.Perm (inputNumbers n)) :
    (inverseOrder sigma).Perm (inputNumbers n) := by
  apply (List.map_perm_map_iff (inputAt_injective hsigma)).mp
  rw [map_inputAt_inverseOrder hsigma, map_inputAt_inputNumbers hsigma]
  exact hsigma.symm

theorem inputAt_inputAt_inverseOrder (hsigma : sigma.Perm (inputNumbers n)) {var : Int}
    (hvar : var ∈ inputNumbers n) : inputAt sigma (inputAt (inverseOrder sigma) var) = var := by
  have hmap : (inputNumbers n).map (inputAt sigma ∘ inputAt (inverseOrder sigma)) =
      (inputNumbers n).map id := by
    rw [← List.map_map, map_inputAt_inputNumbers (perm_inverseOrder hsigma),
      map_inputAt_inverseOrder hsigma, List.map_id]
  exact List.map_inj_left.mp hmap var hvar

theorem inputAt_inverseOrder_inputAt (hsigma : sigma.Perm (inputNumbers n)) {level : Int}
    (hlevel : level ∈ inputNumbers n) :
    inputAt (inverseOrder sigma) (inputAt sigma level) = level := by
  -- The input at the level in question is the input at this level.
  apply inputAt_injective hsigma
  exact inputAt_inputAt_inverseOrder hsigma (inputAt_mem hsigma hlevel)

end Levels

/-! ## Cells -/

namespace Table

variable {table : Table} {sigma tau : List Int}

/-- A table rearranged for an order of its inputs. -/
def rearrangedFor (table : Table) (order : List Int) : Table where
  inputs := table.inputs
  cells := (List.range (rowCount table.inputs)).map fun row =>
    table.cell (sourceRow table.inputs order row)
  length_cells := by simp

theorem cell_rearrangedFor {row : Nat} (h : row < rowCount table.inputs) :
    (table.rearrangedFor sigma).cell row = table.cell (sourceRow table.inputs sigma row) := by
  have hlt : row < (table.rearrangedFor sigma).cells.length := by
    rwa [(table.rearrangedFor sigma).length_cells]
  rw [cell, List.getD_eq_getElem _ _ hlt]
  simp [rearrangedFor]

theorem cells_eq_map_cell (table : Table) :
    table.cells = (List.range (rowCount table.inputs)).map table.cell := by
  refine List.ext_getElem (by simp [table.length_cells]) fun row hrow hrow' => ?_
  rw [List.getElem_map, List.getElem_range, cell, List.getD_eq_getElem _ _ hrow]

theorem cells_rearrangedFor (table : Table) (order : List Int) :
    (table.rearrangedFor order).cells =
      ((List.range (rowCount table.inputs)).map (sourceRow table.inputs order)).map table.cell := by
  rw [List.map_map]
  rfl

/-- A rearranged table holds the same cells. -/
theorem perm_cells_rearrangedFor (hsigma : sigma.Perm (inputNumbers table.inputs)) :
    (table.rearrangedFor sigma).cells.Perm table.cells := by
  rw [cells_rearrangedFor]
  conv_rhs => rw [cells_eq_map_cell]
  exact (perm_map_sourceRow hsigma).map table.cell

/-- The cells along an order are those of the table. -/
theorem perm_map_cellAlong (hsigma : sigma.Perm (inputNumbers table.inputs)) :
    ((Assignment.all table.inputs).map (table.cellAlong sigma)).Perm table.cells := by
  have hcells : (Assignment.all table.inputs).map (table.cellAlong sigma) =
      (table.rearrangedFor sigma).cells := by
    rw [Assignment.all, List.map_map]
    apply List.map_congr_left
    intro row hrow
    simp only [Function.comp_apply, cellAlong, Assignment.row_ofRow (List.mem_range.mp hrow)]
  rw [hcells]
  exact perm_cells_rearrangedFor hsigma

/-- The ascending order leaves every cell where it is. -/
theorem cells_rearrangedFor_inputNumbers (table : Table) :
    (table.rearrangedFor (inputNumbers table.inputs)).cells = table.cells := by
  conv_rhs => rw [cells_eq_map_cell]
  apply List.map_congr_left
  intro row hrow
  rw [sourceRow_inputNumbers (List.mem_range.mp hrow)]

/-- A rearranged table that is rearranged again is rearranged for the composed order. -/
theorem cells_rearrangedFor_rearrangedFor (hsigma : sigma.Perm (inputNumbers table.inputs))
    (htau : tau.Perm (inputNumbers table.inputs)) :
    ((table.rearrangedFor sigma).rearrangedFor tau).cells =
      (table.rearrangedFor (tau.map (inputAt sigma))).cells := by
  apply List.map_congr_left
  intro row hrow
  have hmoved : (table.rearrangedFor sigma).inputs = table.inputs := rfl
  rw [hmoved, cell_rearrangedFor (sourceRow_lt htau (List.mem_range.mp hrow)),
    sourceRow_sourceRow hsigma htau (List.mem_range.mp hrow)]

theorem rearranged_rearrangedFor (hsigma : sigma.Perm (inputNumbers table.inputs))
    (htau : tau.Perm (inputNumbers table.inputs)) :
    rearranged table.inputs tau (table.rearrangedFor sigma).cells =
      .ok (table.rearrangedFor (tau.map (inputAt sigma))).cells := by
  rw [← cells_rearrangedFor_rearrangedFor hsigma htau]
  exact @rearranged_eq (table.rearrangedFor sigma) tau htau

theorem getElem?_rearrangedFor {row : Nat} (h : row < rowCount table.inputs) :
    (table.rearrangedFor sigma).cells[row]? =
      some (table.cell (sourceRow table.inputs sigma row)) := by
  have hcell : (table.rearrangedFor sigma).cells[row]? =
      some ((table.rearrangedFor sigma).cell row) := getElem?_cells h
  rw [hcell, cell_rearrangedFor h]

/-- **Orders act on tables**: the ascending order leaves a table as it is.  Rearranging for an order
    `sigma` of the inputs misses no lookup and puts each cell of the table in one new row: the cell
    of an assignment in the row of the one that has, at each level, the value of the input which
    stands there in `sigma`.  To rearrange the outcome for `tau` is to rearrange the table once, for
    the inputs that stand in `sigma` at the levels `tau`, and the inverse order restores it. -/
theorem rearranging_acts (table : Table) :
    rearranged table.inputs (inputNumbers table.inputs) table.cells = .ok table.cells ∧
      ∀ sigma : List Int, sigma.Perm (inputNumbers table.inputs) →
        ∃ moved, rearranged table.inputs sigma table.cells = .ok moved ∧
          (∀ row < table.cells.length, sourceRow table.inputs sigma row < table.cells.length ∧
            moved[row]? = table.cells[sourceRow table.inputs sigma row]?) ∧
          ((List.range table.cells.length).map (sourceRow table.inputs sigma)).Perm
            (List.range table.cells.length) ∧
          moved.Perm table.cells ∧
          (∀ a b : Assignment, a.length = table.inputs → b.length = table.inputs →
            (∀ level ∈ inputNumbers table.inputs, b.value level = a.value (inputAt sigma level)) →
              ∃ cell, moved[b.row]? = some cell ∧ table.cells[a.row]? = some cell) ∧
          (∀ tau : List Int, tau.Perm (inputNumbers table.inputs) →
            (tau.map (inputAt sigma)).Perm (inputNumbers table.inputs) ∧
              ∃ again, rearranged table.inputs tau moved = .ok again ∧
                rearranged table.inputs (tau.map (inputAt sigma)) table.cells = .ok again) ∧
          (inverseOrder sigma).Perm (inputNumbers table.inputs) ∧
          (∀ level ∈ inputNumbers table.inputs,
            inputAt sigma (inputAt (inverseOrder sigma) level) = level ∧
              inputAt (inverseOrder sigma) (inputAt sigma level) = level) ∧
          rearranged table.inputs (inverseOrder sigma) moved = .ok table.cells := by
  refine ⟨?_, fun sigma hsigma => ?_⟩
  · exact (@rearranged_eq table _ (.refl _)).trans
      (congrArg Except.ok table.cells_rearrangedFor_inputNumbers)
  refine ⟨(table.rearrangedFor sigma).cells, rearranged_eq hsigma, ?_, ?_,
    perm_cells_rearrangedFor hsigma, ?_, ?_, perm_inverseOrder hsigma, ?_, ?_⟩
  · intro row hrow
    rw [table.length_cells] at hrow ⊢
    have hlt := sourceRow_lt hsigma hrow
    exact ⟨hlt, by rw [getElem?_rearrangedFor hrow, getElem?_cells hlt]⟩
  · rw [table.length_cells]
    exact perm_map_sourceRow hsigma
  · -- The values of the new assignment are those of the old one along the order.
    intro a b ha hb hvalues
    obtain rfl := Assignment.eq_along hsigma hb hvalues
    have hmoved := @getElem?_rearrangedFor table sigma _ (Assignment.row_lt_of_length hb)
    rw [sourceRow_row_along hsigma ha] at hmoved
    exact ⟨table.cell a.row, hmoved, getElem?_cells (Assignment.row_lt_of_length ha)⟩
  · intro tau htau
    have hboth := perm_map_inputAt hsigma htau
    exact ⟨hboth, _, rearranged_rearrangedFor hsigma htau, rearranged_eq hboth⟩
  · intro level hlevel
    exact ⟨inputAt_inputAt_inverseOrder hsigma hlevel, inputAt_inverseOrder_inputAt hsigma hlevel⟩
  · -- What stands at the levels of the inputs are the inputs, in ascending order.
    rw [rearranged_rearrangedFor hsigma (perm_inverseOrder hsigma),
      map_inputAt_inverseOrder hsigma, cells_rearrangedFor_inputNumbers]

/-- Three inputs moved around in a circle, twice. -/
theorem rearranging_acts_circle :
    let table : Table := ⟨3, [.literal "A", .literal "B", .dontCare, .literal "C", .literal "A",
      .literal "D", .literal "E", .dontCare], rfl⟩
    ([1, 2, 0] : List Int).Perm (inputNumbers 3) ∧
      ∃ moved, rearranged 3 [1, 2, 0] table.cells = .ok moved ∧ moved[1]? = some (.literal "A") ∧
        (∃ again, rearranged 3 [1, 2, 0] moved = .ok again ∧
          rearranged 3 [2, 0, 1] table.cells = .ok again) ∧
        rearranged 3 [2, 0, 1] moved = .ok table.cells := by
  intro table
  have hsigma : ([1, 2, 0] : List Int).Perm (inputNumbers 3) := by decide
  obtain ⟨-, hacts⟩ := rearranging_acts table
  obtain ⟨moved, hmoved, -, -, -, hcells, htwice, -, -, hinverse⟩ := hacts [1, 2, 0] hsigma
  -- Input `0` stands at the last level, so row `1` has the cell of the row where it is false.
  obtain ⟨cell, hnew, hold⟩ := hcells [false, true, true] [true, true, false] rfl rfl (by decide)
  have hcell : some cell = some (Cell.literal "A") := hold.symm
  obtain ⟨-, htwice⟩ := htwice [1, 2, 0] hsigma
  exact ⟨hsigma, moved, hmoved, hnew.trans hcell, htwice, hinverse⟩

end Table

end Dichotomy
