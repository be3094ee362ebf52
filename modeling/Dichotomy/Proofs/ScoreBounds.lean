import Dichotomy.Proofs.BuiltForm
import Mathlib.Data.List.Dedup

/-!
# Bounds on scores

No literal of a table gets lost, since each of its rows is answered: the diagram that is built for
an order gives all of them.  Merging shares a fallback with the same fallback only, so the outline
gives all of them, too, and needs a result for each.  On the other side, the leaves of the diagram
stem from different rows that demand something.

## Main statements

- `Diagram.length_dedup_le_score`, `Diagram.score_le_decisions`: bounds for any diagram.
- `Table.decisions_lt_demanded`: a built diagram has a demanding row for each leaf.
- `Table.score_between_demands`: the bounds for all orders, and for the least score.
-/

namespace Dichotomy

/-! ## Bounds for any diagram -/

namespace Diagram

variable {ι : Type}

/-- There is one leaf more than there are decisions. -/
theorem length_cells (d : Diagram ι) : d.cells.length = d.decisions + 1 := by
  induction d with
  | leaf mark cell => rfl
  | branch mark var high low ihHigh ihLow =>
    rw [cells, List.length_append, ihHigh, ihLow, decisions]
    omega

/-- Without merging, each leaf would be a result. -/
theorem score_le_decisions (d : Diagram ι) : d.score ≤ d.decisions + 1 := by
  induction d with
  | leaf mark cell => exact Nat.le_refl 1
  | branch mark var high low ihHigh ihLow =>
    rw [score, decisions]
    split <;> omega

/-- **Different cells need different results**: the outline still gives each cell of the leaves. -/
theorem length_dedup_le_score {d : Diagram ι} {demands : List Cell} (h : demands ⊆ d.cells) :
    demands.dedup.length ≤ d.score := by
  have hsub : demands.dedup ⊆ d.outline.cells := fun cell hcell =>
    mem_cells_outline.mpr (h (List.mem_dedup.mp hcell))
  calc demands.dedup.length ≤ d.outline.cells.length :=
        ((List.nodup_dedup demands).subperm hsub).length_le
    _ = d.outline.results := d.outline.length_cells
    _ = d.score := d.results_outline

end Diagram

/-! ## Built diagrams -/

namespace Table

variable {table : Table} {order : List Int}

/-- The cells that demand a literal. -/
def demanded (table : Table) : List Cell := table.cells.filter fun cell => !cell.isFree

theorem mem_demanded {cell : Cell} :
    cell ∈ table.demanded ↔ cell ∈ table.cells ∧ cell.isFree = false := by
  rw [demanded, List.mem_filter, Bool.not_eq_true']

/-- Every literal of the table stands in some leaf. -/
theorem demanded_subset_cells_root (horder : order.Perm (inputNumbers table.inputs)) :
    table.demanded ⊆ (table.root order).cells := by
  intro cell hcell
  obtain ⟨hmem, hdemands⟩ := mem_demanded.mp hcell
  obtain ⟨row, hrow⟩ := List.getElem?_of_mem hmem
  cases cell with
  | dontCare => cases hdemands
  | literal text =>
    -- The row of the literal is answered by it, so it is met on some path.
    apply Diagram.mem_cells_of_eval
    exact eval_build_of_literal horder (build_eq_root horder) hrow

/-- Every leaf stems from a demanding row of its own, if there is any. -/
theorem decisions_lt_demanded (hliteral : ∃ text, Cell.literal text ∈ table.cells)
    (horder : order.Perm (inputNumbers table.inputs)) :
    (table.root order).decisions < table.demanded.length := by
  have hrows := (perm_map_cellAlong horder).filter fun cell => !cell.isFree
  rw [← length_of_perm_inputNumbers horder] at hrows
  rw [← Diagram.decisions_shape, shape_root horder, ← Nat.succ_le_iff, Nat.succ_eq_add_one,
    ← Diagram.length_cells]
  rcases Tree.isFree_or_cells_sublist order (table.cellAlong order) with hfree | hsublist
  · -- A free leaf would be built only if nothing was demanded.
    rw [← shape_root horder, Reduction.isFree_shape, isFree_root_iff horder] at hfree
    obtain ⟨text, htext⟩ := hliteral
    cases hfree _ htext
  · exact hsublist.length_le.trans hrows.length_eq.le

/-- If one literal is demanded everywhere, one result is enough. -/
theorem score_root_of_one_demand (horder : order.Perm (inputNumbers table.inputs)) {cell : Cell}
    (h : ∀ other ∈ table.demanded, other = cell) : (table.root order).score = 1 := by
  rw [← Diagram.score_shape, shape_root horder]
  have hone : ∀ values, values.length = order.length →
      (table.cellAlong order values).isFree = false → table.cellAlong order values = cell :=
    fun values hlen hdemands =>
      h _ (mem_demanded.mpr ⟨(mem_cells_iff horder).mpr ⟨values, hlen, rfl⟩, hdemands⟩)
  rcases Tree.ofCells_of_one_demand hone with hfree | hleaf
  · obtain ⟨mark, hleaf⟩ := Diagram.exists_leaf_of_isFree hfree
    rw [hleaf]
    rfl
  · rw [hleaf]
    rfl

/-- One result tells no two literals apart. -/
theorem eq_of_score_root_eq_one (horder : order.Perm (inputNumbers table.inputs))
    (hscore : (table.root order).score = 1) {cell cell' : Cell} (hcell : cell ∈ table.demanded)
    (hcell' : cell' ∈ table.demanded) : cell = cell' := by
  have hcells := demanded_subset_cells_root horder
  by_contra hne
  have hpair : [cell, cell'] ⊆ (table.root order).cells := by
    simp [hcells hcell, hcells hcell']
  have hnodup : [cell, cell'].Nodup := by simpa using hne
  -- Two different cells would need two results.
  have hle := Diagram.length_dedup_le_score hpair
  rw [hnodup.dedup, hscore, List.length_cons, List.length_singleton] at hle
  omega

/-- **Bounds on every score**: let a table demand some literal.  For every order of its inputs, the
    score is at least the number of its different literals and at most one more than the number of
    decisions, and of these there are fewer than cells with a literal.  So the least score that a
    search reports lies between the number of different literals and the number of cells with a
    literal, and it is `1` exactly if these cells are all equal. -/
theorem score_between_demands (table : Table)
    (hliteral : ∃ text, Cell.literal text ∈ table.cells) :
    (∀ order : List Int, order.Perm (inputNumbers table.inputs) →
      ∃ root, table.build order = .ok root ∧ table.demanded.dedup.length ≤ root.score ∧
        root.score ≤ root.decisions + 1 ∧ root.decisions + 1 ≤ table.demanded.length) ∧
      ∃ least, table.Reports least ∧ table.demanded.dedup.length ≤ least ∧
        least ≤ table.demanded.length ∧
        (least = 1 ↔ ∀ cell ∈ table.demanded, ∀ cell' ∈ table.demanded, cell = cell') := by
  have hbounds {order : List Int} (horder : order.Perm (inputNumbers table.inputs)) :
      table.demanded.dedup.length ≤ (table.root order).score ∧
        (table.root order).score ≤ (table.root order).decisions + 1 ∧
        (table.root order).decisions + 1 ≤ table.demanded.length :=
    ⟨Diagram.length_dedup_le_score (demanded_subset_cells_root horder), Diagram.score_le_decisions _,
      decisions_lt_demanded hliteral horder⟩
  refine ⟨fun order horder => ⟨_, build_eq_root horder, hbounds horder⟩, ?_⟩
  obtain ⟨least, hleast⟩ := table.exists_reports
  obtain ⟨⟨order, horder, heq⟩, -⟩ := reports_iff.mp hleast
  obtain ⟨hlower, hdecisions, hupper⟩ := hbounds horder
  refine ⟨least, hleast, by omega, by omega, ?_⟩
  constructor
  · intro hone cell hcell cell' hcell'
    exact eq_of_score_root_eq_one horder (by omega) hcell hcell'
  · intro hall
    obtain ⟨text, htext⟩ := hliteral
    have hscore := score_root_of_one_demand horder fun other hother =>
      hall other hother (.literal text) (mem_demanded.mpr ⟨htext, rfl⟩)
    omega

/-- Six cells with three literals, and two free ones. -/
theorem score_between_demands_three :
    let table : Table := ⟨3, [.literal "A", .literal "B", .literal "A", .dontCare, .literal "B",
      .dontCare, .literal "C", .literal "A"], rfl⟩
    (∃ text, Cell.literal text ∈ table.cells) ∧ ([2, 0, 1] : List Int).Perm (inputNumbers 3) ∧
      table.demanded.dedup.length = 3 ∧ table.demanded.length = 6 ∧
      (∃ root, table.build [2, 0, 1] = .ok root ∧ 3 ≤ root.score ∧ root.decisions + 1 ≤ 6) ∧
      ∃ least, table.Reports least ∧ 3 ≤ least ∧ least ≤ 6 := by
  intro table
  have hliteral : ∃ text, Cell.literal text ∈ table.cells := ⟨"A", List.mem_cons_self⟩
  have horder : ([2, 0, 1] : List Int).Perm (inputNumbers 3) := by decide
  have hdistinct : table.demanded.dedup.length = 3 := by decide
  have hlength : table.demanded.length = 6 := rfl
  obtain ⟨hbuild, least, hleast, hlower, hupper, -⟩ := score_between_demands table hliteral
  obtain ⟨root, hroot, hscore, -, hdecisions⟩ := hbuild [2, 0, 1] horder
  rw [hdistinct] at hscore hlower
  rw [hlength] at hdecisions hupper
  exact ⟨hliteral, horder, hdistinct, hlength, ⟨root, hroot, hscore, hdecisions⟩, least, hleast,
    hlower, hupper⟩

end Table

end Dichotomy
