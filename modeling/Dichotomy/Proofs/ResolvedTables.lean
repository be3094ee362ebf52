import Dichotomy.Proofs.BuiltForm

/-!
# Resolved tables

A diagram built for an order answers the free rows of its table in some way of its own.  When these
answers are written into the table, the same order gives the same diagram again: what had been
decided by giving way to the other side is now decided by finding the sides equal.

## Main statements

- `Table.Resolves.computes`: the diagram computes the resolved table.
- `Table.rebuild_resolved`: the resolved table has the same diagram.
-/

namespace Dichotomy

namespace Table

/-- A table in which each free cell of another one has been replaced by the answer of a diagram,
    and nothing else is changed. -/
structure Resolves {ι : Type} (resolved table : Table) (d : Diagram ι) : Prop where
  relaxes : table.Relaxes resolved
  answer : ∀ row : Nat, table.cells[row]? = some .dontCare →
    ∃ cell, resolved.cells[row]? = some cell ∧
      d.eval (Assignment.ofRow table.inputs row) = .ok cell

variable {table resolved : Table} {order : List Int}

/-- The free rows can be resolved. -/
theorem resolves_answered (horder : order.Perm (inputNumbers table.inputs)) :
    (table.answered (table.root order)).Resolves table (table.root order) where
  relaxes := relaxes_answered horder
  answer row hrow := by
    obtain ⟨hlt, -⟩ := List.getElem?_eq_some_iff.mp hrow
    rw [table.length_cells] at hlt
    have hcell : (table.answered (table.root order)).cells[row]? =
        some ((table.answered (table.root order)).cell row) := getElem?_cells hlt
    exact ⟨_, hcell, computes_answered horder row _ hcell⟩

/-- **What is resolved**: the diagram answers every row of the resolved table, demanded or free. -/
theorem Resolves.computes (h : resolved.Resolves table (table.root order))
    (horder : order.Perm (inputNumbers table.inputs)) :
    (table.root order).Computes resolved := by
  intro row cell hcell
  obtain ⟨hlt, -⟩ := List.getElem?_eq_some_iff.mp hcell
  rw [resolved.length_cells, ← h.relaxes.inputs] at hlt
  have hrow := getElem?_cells hlt
  rw [← h.relaxes.inputs]
  cases hdemand : table.cell row with
  | literal text =>
    -- A demanded row has kept its cell.
    rw [hdemand] at hrow
    rw [h.relaxes.literal row text hrow, Option.some.injEq] at hcell
    rw [← hcell]
    exact eval_build_of_literal horder (build_eq_root horder) hrow
  | dontCare =>
    -- A free row has been given the answer.
    rw [hdemand] at hrow
    obtain ⟨answer, hanswer, heval⟩ := h.answer row hrow
    rw [hanswer, Option.some.injEq] at hcell
    rw [← hcell]
    exact heval

/-- The resolved table has the diagram of the table. -/
theorem Resolves.sameShape_root (h : resolved.Resolves table (table.root order))
    (horder : order.Perm (inputNumbers table.inputs)) :
    (table.root order).sameShape (resolved.root order) = true := by
  have horder' : order.Perm (inputNumbers resolved.inputs) := by rwa [← h.relaxes.inputs]
  have hcomputes := h.computes horder
  by_cases hliteral : ∃ text, Cell.literal text ∈ table.cells
  · -- Every answer is a literal, so there is one diagram only for the resolved table.
    have hfull : ∀ cell ∈ resolved.cells, cell.isFree = false := by
      intro cell hcell
      obtain ⟨row, hrow⟩ := List.getElem?_of_mem hcell
      obtain ⟨text, htext⟩ := exists_eval_root hliteral horder
        ((Assignment.length_ofRow resolved.inputs row).trans h.relaxes.inputs.symm)
      rw [hcomputes row cell hrow, Except.ok.injEq] at htext
      rw [htext]
      rfl
    exact (sameShape_root_iff hfull horder').mpr
      ⟨follows_root horder, isReduced_root horder, hcomputes⟩
  · -- Nothing is demanded, so both diagrams are free leaves.
    have hall : ∀ cell ∈ table.cells, cell = .dontCare := by
      intro cell hcell
      cases cell with
      | literal text => exact absurd ⟨text, hcell⟩ hliteral
      | dontCare => rfl
    have hfree := (isFree_root_iff horder).mpr hall
    have hfree' : (resolved.root order).isFree = true := by
      refine (isFree_root_iff horder').mpr fun cell hcell => ?_
      obtain ⟨row, hrow⟩ := List.getElem?_of_mem hcell
      have heval := hcomputes row cell hrow
      rw [Diagram.eval_of_isFree hfree] at heval
      exact (Except.ok.inj heval).symm
    obtain ⟨mark, hleaf⟩ := Diagram.exists_leaf_of_isFree hfree
    obtain ⟨mark', hleaf'⟩ := Diagram.exists_leaf_of_isFree hfree'
    rw [Diagram.sameShape_iff, hleaf, hleaf']
    rfl

/-- **Rebuilding changes nothing**: the free cells of a table can be replaced by the answers of the
    diagram built for an order, and from any table made in this way the same order gives a diagram
    of the same shape and score. -/
theorem rebuild_resolved (table : Table) {order : List Int}
    (horder : order.Perm (inputNumbers table.inputs)) :
    ∃ root, table.build order = .ok root ∧
      (∃ resolved : Table, resolved.Resolves table root) ∧
      ∀ resolved : Table, resolved.Resolves table root →
        ∃ root', resolved.build order = .ok root' ∧ root.sameShape root' = true ∧
          root'.score = root.score := by
  refine ⟨table.root order, build_eq_root horder, ⟨_, resolves_answered horder⟩, ?_⟩
  intro resolved h
  have horder' : order.Perm (inputNumbers resolved.inputs) := by rwa [← h.relaxes.inputs]
  have hsame := h.sameShape_root horder
  exact ⟨resolved.root order, build_eq_root horder', hsame,
    (Diagram.score_eq_of_sameShape hsame).symm⟩

/-- A free cell that gives way to the cell next to it, and the table in which it is that cell. -/
theorem rebuild_resolved_two :
    let table : Table := ⟨2, [.literal "A", .literal "B", .dontCare, .literal "B"], rfl⟩
    let resolved : Table := ⟨2, [.literal "A", .literal "B", .literal "B", .literal "B"], rfl⟩
    ([0, 1] : List Int).Perm (inputNumbers 2) ∧
      ∃ root root', table.build [0, 1] = .ok root ∧ resolved.Resolves table root ∧
        resolved.build [0, 1] = .ok root' ∧ root.sameShape root' = true := by
  intro table resolved
  have horder : ([0, 1] : List Int).Perm (inputNumbers 2) := by decide
  obtain ⟨root, hbuild, -, hall⟩ := rebuild_resolved table horder
  obtain rfl : table.root [0, 1] = root := Except.ok.inj ((build_eq_root horder).symm.trans hbuild)
  have hrows {row : Nat} {cell : Cell} (hcell : table.cells[row]? = some cell) : row < 4 :=
    (List.getElem?_eq_some_iff.mp hcell).1
  have honly : ∀ row < 4, table.cells[row]? = some .dontCare → row = 2 := by decide
  have hkept : ∀ row < 4, row ≠ 2 → resolved.cells[row]? = table.cells[row]? := by decide
  have hresolved : resolved.Resolves table (table.root [0, 1]) := by
    refine ⟨⟨rfl, fun row text hcell => ?_⟩, fun row hcell => ?_⟩
    · have hdemanded : row ≠ 2 := by
        rintro rfl
        cases hcell
      rw [hkept row (hrows hcell) hdemanded, hcell]
    · obtain rfl := honly row (hrows hcell) hcell
      refine ⟨.literal "B", rfl, ?_⟩
      rw [← Diagram.eval_shape, shape_root horder]
      rfl
  obtain ⟨root', hbuild', hsame, -⟩ := hall resolved hresolved
  exact ⟨horder, _, root', hbuild, hresolved, hbuild', hsame⟩

end Table

end Dichotomy
