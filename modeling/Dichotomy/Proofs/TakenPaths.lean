import Dichotomy.Proofs.BuiltForm
import Dichotomy.Proofs.Languages
import Dichotomy.Proofs.PathLiterals
import Dichotomy.Proofs.StoredDiagrams

/-!
# Paths that are taken

A table that demands something makes use of all of its diagrams: each path from the root to a leaf
is taken by a row that demands the literal of the leaf.  Free cells may be led anywhere, but never
to a leaf of their own.

What is taken on the paths of a diagram is taken along its openings, too: those that go on with a
side of an opening exercise the side.

## Main statements

- `Diagram.IsExercised.side`: what follows an opening is exercised by those that go on with it.
- `Table.exists_row_of_mem_paths`: the row that takes a path of a built diagram.
-/

namespace Dichotomy

/-! ## Taking a path -/

namespace Assignment

/-- The valuation in which variable `v + 1` stands for input `v`. -/
def valuation (a : Assignment) : Valuation := fun v => a.value ((v : Int) - 1)

/-- An assignment takes a path if it makes all literals of the path true. -/
def Takes (a : Assignment) (path : List Int) : Prop :=
  ∀ literal ∈ path, a.valuation.satisfies literal = true

variable {a : Assignment} {var : Int} {path : List Int}

theorem agrees_valuation (a : Assignment) : a.valuation.Agrees a := by
  intro var hvar
  have hrange := mem_inputNumbers.mp hvar
  have habs : (((var + 1).natAbs : Nat) : Int) - 1 = var := by omega
  rw [valuation, habs]

theorem takes_nil (a : Assignment) : a.Takes [] := fun _ h => nomatch h

/-- A positive literal says that its input is true. -/
theorem satisfies_valuation (hvar : 0 ≤ var) :
    a.valuation.satisfies (var + 1) = a.value var := by
  have habs : (((var + 1).natAbs : Nat) : Int) - 1 = var := by omega
  rw [Valuation.satisfies, if_pos (by omega), valuation, habs]

/-- A negative literal says that its input is false. -/
theorem satisfies_valuation_neg (hvar : 0 ≤ var) :
    a.valuation.satisfies (-(var + 1)) = !a.value var := by
  have habs : (((var + 1).natAbs : Nat) : Int) - 1 = var := by omega
  rw [Valuation.satisfies, if_neg (by omega), Int.natAbs_neg, valuation, habs]

/-- A path to the high side is taken if the input is true. -/
theorem takes_high (hvar : 0 ≤ var) :
    a.Takes ((var + 1) :: path) ↔ a.value var = true ∧ a.Takes path := by
  rw [Takes, List.forall_mem_cons, satisfies_valuation hvar]
  rfl

/-- A path to the low side is taken if the input is false. -/
theorem takes_low (hvar : 0 ≤ var) :
    a.Takes (-(var + 1) :: path) ↔ a.value var = false ∧ a.Takes path := by
  rw [Takes, List.forall_mem_cons, satisfies_valuation_neg hvar, Bool.not_eq_true']
  rfl

end Assignment

namespace Diagram

variable {ι : Type}

theorem paths_shape (d : Diagram ι) : d.shape.paths = d.paths := by
  induction d with
  | leaf mark cell => rfl
  | branch mark var high low ihHigh ihLow => rw [shape_branch, paths, paths, ihHigh, ihLow]

/-- An assignment that takes a path is answered by the cell at its end. -/
theorem eval_of_takes {d : Diagram ι} {a : Assignment} (hcovers : a.Covers d) {path : List Int}
    {cell : Cell} (hmem : (path, cell) ∈ d.paths) (htakes : a.Takes path) :
    d.eval a = .ok cell :=
  eval_of_mem_paths a.agrees_valuation hcovers hmem htakes

/-! ## Exercised diagrams -/

/-- A diagram is exercised by some assignments if each of its paths is taken by one of them. -/
def IsExercised (d : Diagram ι) (rows : Assignment → Prop) : Prop :=
  ∀ path cell, (path, cell) ∈ d.paths → ∃ a, rows a ∧ a.Takes path

/-- There is a path in every diagram. -/
theorem exists_path (d : Diagram ι) : ∃ path cell, (path, cell) ∈ d.paths := by
  induction d with
  | leaf mark cell => exact ⟨[], cell, List.mem_singleton.mpr rfl⟩
  | branch mark var high low ihHigh _ =>
    obtain ⟨path, cell, hmem⟩ := ihHigh
    exact ⟨_, cell, mem_paths_branch.mpr (.inl ⟨path, hmem, rfl⟩)⟩

theorem IsExercised.exists {d : Diagram ι} {rows : Assignment → Prop} (h : d.IsExercised rows) :
    ∃ a, rows a := by
  obtain ⟨path, cell, hmem⟩ := d.exists_path
  obtain ⟨a, ha, -⟩ := h path cell hmem
  exact ⟨a, ha⟩

/-- A path behind a run of decisions is the end of a path through the run, which is taken where
    all inputs of the run are true. -/
theorem exists_path_of_runOver (fallback : Cell) {d : Diagram ι}
    (htests : ∀ var ∈ d.tests, 0 ≤ var) {path : List Int} {cell : Cell}
    (hmem : (path, cell) ∈ (d.runOver fallback).2.paths) :
    ∃ whole, (whole, cell) ∈ d.paths ∧ ∀ a : Assignment, a.Takes whole →
      (d.runOver fallback).1.all a.value = true ∧ a.Takes path := by
  induction d with
  | leaf mark other => exact ⟨path, hmem, fun a htakes => ⟨rfl, htakes⟩⟩
  | branch mark var high low ihHigh _ =>
    cases low with
    | branch => exact ⟨path, hmem, fun a htakes => ⟨rfl, htakes⟩⟩
    | leaf lowMark other =>
      rw [runOver] at hmem ⊢
      split at hmem
      next hsame =>
        -- The run goes on over the high side.
        obtain ⟨whole, hwhole, htaken⟩ := ihHigh (fun v hv => htests v (by simp [tests, hv])) hmem
        rw [if_pos hsame]
        refine ⟨(var + 1) :: whole, mem_paths_branch.mpr (.inl ⟨whole, hwhole, rfl⟩), ?_⟩
        intro a htakes
        obtain ⟨hvalue, hrest⟩ := (Assignment.takes_high (htests var List.mem_cons_self)).mp htakes
        obtain ⟨hall, hpath⟩ := htaken a hrest
        exact ⟨by rw [List.all_cons, hvalue, hall]; rfl, hpath⟩
      next hother =>
        rw [if_neg hother]
        exact ⟨path, hmem, fun a htakes => ⟨rfl, htakes⟩⟩

/-- A path behind an opening is the end of a path from the root, which is taken where the
    condition comes out in favour of the side. -/
theorem exists_path_of_opening {d high low : Diagram ι} {inputs : List Int}
    (hopening : d.opening = .ask inputs high low) (htests : ∀ var ∈ d.tests, 0 ≤ var)
    (taken : Bool) {path : List Int} {cell : Cell}
    (hmem : (path, cell) ∈ (if taken then high else low).paths) :
    ∃ whole, (whole, cell) ∈ d.paths ∧ ∀ a : Assignment, a.Takes whole →
      inputs.all a.value = taken ∧ a.Takes path := by
  obtain ⟨mark, var, side, lowMark, fallback, rfl, rfl, rfl, rfl⟩ |
    ⟨mark, var, lowMark, lowVar, lowHigh, lowLow, rfl, rfl, -⟩ := opening_cases hopening
  · have hvar : 0 ≤ var := htests var List.mem_cons_self
    have hall (a : Assignment) : (ascending (var :: (side.runOver fallback).1)).all a.value =
        (a.value var && (side.runOver fallback).1.all a.value) := by
      rw [(perm_ascending _).all_eq, List.all_cons]
    cases taken with
    | true =>
      obtain ⟨whole, hwhole, htaken⟩ := @exists_path_of_runOver ι fallback side
        (fun v hv => htests v (by simp [tests, hv])) path cell hmem
      refine ⟨(var + 1) :: whole, mem_paths_branch.mpr (.inl ⟨whole, hwhole, rfl⟩), ?_⟩
      intro a htakes
      obtain ⟨hvalue, hrest⟩ := (Assignment.takes_high hvar).mp htakes
      obtain ⟨hinputs, hpath⟩ := htaken a hrest
      exact ⟨by rw [hall, hvalue, hinputs]; rfl, hpath⟩
    | false =>
      -- The first test of the run falls back at once.
      refine ⟨-(var + 1) :: path, mem_paths_branch.mpr (.inr ⟨path, hmem, rfl⟩), ?_⟩
      intro a htakes
      obtain ⟨hvalue, hpath⟩ := (Assignment.takes_low hvar).mp htakes
      exact ⟨by rw [hall, hvalue]; rfl, hpath⟩
  · have hvar : 0 ≤ var := htests var List.mem_cons_self
    cases taken with
    | true =>
      refine ⟨(var + 1) :: path, mem_paths_branch.mpr (.inl ⟨path, hmem, rfl⟩), ?_⟩
      intro a htakes
      obtain ⟨hvalue, hpath⟩ := (Assignment.takes_high hvar).mp htakes
      exact ⟨by simp [hvalue], hpath⟩
    | false =>
      refine ⟨-(var + 1) :: path, mem_paths_branch.mpr (.inr ⟨path, hmem, rfl⟩), ?_⟩
      intro a htakes
      obtain ⟨hvalue, hpath⟩ := (Assignment.takes_low hvar).mp htakes
      exact ⟨by simp [hvalue], hpath⟩

/-- **Exercised sides**: what follows an opening is exercised by the assignments that go on with
    it. -/
theorem IsExercised.side {d high low : Diagram ι} {inputs : List Int} {rows : Assignment → Prop}
    (h : d.IsExercised rows) (hopening : d.opening = .ask inputs high low)
    (htests : ∀ var ∈ d.tests, 0 ≤ var) (taken : Bool) :
    (if taken then high else low).IsExercised fun a => rows a ∧ inputs.all a.value = taken := by
  intro path cell hmem
  obtain ⟨whole, hwhole, htaken⟩ := exists_path_of_opening hopening htests taken hmem
  obtain ⟨a, ha, htakes⟩ := h whole cell hwhole
  obtain ⟨hall, hpath⟩ := htaken a htakes
  exact ⟨a, ⟨ha, hall⟩, hpath⟩

end Diagram

/-! ## Paths of built diagrams -/

/-- If anything is demanded, each path of a reduced tree is taken along some values, whose cell
    stands at its end and demands something. -/
theorem Tree.exists_of_mem_paths_ofCells {order : List Int} (horder : ∀ var ∈ order, 0 ≤ var)
    {cells : List Bool → Cell} (hdemand : (Tree.ofCells order cells).isFree = false)
    {path : List Int} {cell : Cell} (h : (path, cell) ∈ (Tree.ofCells order cells).paths) :
    cell.isFree = false ∧ ∃ values, values.length = order.length ∧ cells values = cell ∧
      ∀ a : Assignment, a.along order = values → a.Takes path := by
  induction order generalizing cells path with
  | nil =>
    obtain ⟨rfl, rfl⟩ := Prod.mk.inj (List.mem_singleton.mp h)
    exact ⟨hdemand, [], rfl, rfl, fun a _ => a.takes_nil⟩
  | cons var order ih =>
    have hvar := horder var List.mem_cons_self
    have hrest : ∀ v ∈ order, 0 ≤ v := fun v hv => horder v (List.mem_cons_of_mem _ hv)
    -- A path of one side is taken by those that give the input its value.
    have hside (value : Bool)
        (hfree : (Tree.ofCells order fun values => cells (value :: values)).isFree = false)
        {rest : List Int}
        (hmem : (rest, cell) ∈ (Tree.ofCells order fun values => cells (value :: values)).paths)
        (htakes : ∀ a : Assignment, a.value var = value → a.Takes rest → a.Takes path) :
        cell.isFree = false ∧ ∃ values, values.length = (var :: order).length ∧
          cells values = cell ∧
            ∀ a : Assignment, a.along (var :: order) = values → a.Takes path := by
      obtain ⟨hcell, values, hlen, heq, hvalues⟩ := ih hrest hfree hmem
      refine ⟨hcell, value :: values, congrArg Nat.succ hlen, heq, fun a halong => ?_⟩
      rw [Assignment.along_cons, List.cons.injEq] at halong
      exact htakes a halong.1 (hvalues a halong.2)
    rw [ofCells] at h hdemand
    rcases Diagram.reducedBranch_cases () var (Tree.ofCells order fun values => cells (true :: values))
        (Tree.ofCells order fun values => cells (false :: values)) with
      ⟨-, heq⟩ | ⟨-, heq⟩ | ⟨-, heq⟩ | ⟨hhigh, hlow, -, heq⟩
    · rw [heq] at h hdemand
      exact hside false hdemand h fun _ _ htakes => htakes
    · rw [heq] at h hdemand
      exact hside true hdemand h fun _ _ htakes => htakes
    · rw [heq] at h hdemand
      exact hside true hdemand h fun _ _ htakes => htakes
    · rw [heq] at h
      rcases Diagram.mem_paths_branch.mp h with ⟨rest, hmem, rfl⟩ | ⟨rest, hmem, rfl⟩
      · exact hside true (Bool.eq_false_iff.mpr hhigh) hmem fun a hvalue htakes =>
          (Assignment.takes_high hvar).mpr ⟨hvalue, htakes⟩
      · exact hside false (Bool.eq_false_iff.mpr hlow) hmem fun a hvalue htakes =>
          (Assignment.takes_low hvar).mpr ⟨hvalue, htakes⟩

namespace Table

variable {table : Table} {order : List Int}

/-- The assignments of the rows that demand a literal. -/
def Demands (table : Table) (a : Assignment) : Prop :=
  ∃ (row : Nat) (text : String),
    table.cells[row]? = some (.literal text) ∧ a = Assignment.ofRow table.inputs row

/-- **The row that takes a path**: if anything is demanded, each path of a built diagram is taken by
    a row that demands the literal at its end. -/
theorem exists_row_of_mem_paths (hdemand : ∃ text, Cell.literal text ∈ table.cells)
    (horder : order.Perm (inputNumbers table.inputs)) {path : List Int} {cell : Cell}
    (h : (path, cell) ∈ (table.root order).paths) :
    ∃ (row : Nat) (text : String), table.cells[row]? = some (.literal text) ∧
      cell = .literal text ∧ (Assignment.ofRow table.inputs row).Takes path := by
  have hnonneg : ∀ var ∈ order, 0 ≤ var := fun var hvar =>
    (mem_inputNumbers.mp (horder.mem_iff.mp hvar)).1
  have hfree : (Tree.ofCells order (table.cellAlong order)).isFree = false := by
    rw [← shape_root horder, Reduction.isFree_shape, Bool.eq_false_iff, Ne, isFree_root_iff horder]
    obtain ⟨text, hmem⟩ := hdemand
    intro hall
    cases hall _ hmem
  rw [← Diagram.paths_shape, shape_root horder] at h
  obtain ⟨hcell, values, hlen, heq, htakes⟩ := Tree.exists_of_mem_paths_ofCells hnonneg hfree h
  obtain ⟨a, ha, rfl⟩ := Assignment.exists_along_of_perm horder hlen
  rw [cellAlong_along horder ha] at heq
  cases cell with
  | dontCare => cases hcell
  | literal text =>
    refine ⟨a.row, text, ?_, rfl, ?_⟩
    · rw [getElem?_cells (Assignment.row_lt_of_length ha), heq]
    · rw [Assignment.ofRow_row_of_length ha]
      exact htakes a rfl

theorem isExercised_root (hdemand : ∃ text, Cell.literal text ∈ table.cells)
    (horder : order.Perm (inputNumbers table.inputs)) :
    (table.root order).IsExercised table.Demands := by
  intro path cell hmem
  obtain ⟨row, text, hcell, -, htakes⟩ := exists_row_of_mem_paths hdemand horder hmem
  exact ⟨_, ⟨row, text, hcell, rfl⟩, htakes⟩

theorem Demands.covers_root {a : Assignment} (h : table.Demands a)
    (horder : order.Perm (inputNumbers table.inputs)) : a.Covers (table.root order) := by
  obtain ⟨row, text, -, rfl⟩ := h
  intro var hvar
  rw [Assignment.length_ofRow]
  exact tests_root_subset horder hvar

end Table

end Dichotomy
