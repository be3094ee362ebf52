import Dichotomy.Proofs.CanonicalForm
import Dichotomy.Proofs.CodeReturns
import Dichotomy.Proofs.OneSided
import Mathlib.Data.Int.LeastGreatest

/-!
# Filled tables

A table with free cells can be filled: each free cell is replaced by some literal.  The search does
not try all fillings.  Each order fills the table in a way of its own, since a side that demands
nothing answers like the side next to it, and a filling that makes larger parts equal may be
missed.

So no search of a table finds less than a search of the best filling, and it may find more.  It
finds as much wherever a diagram of the best filling is one-sided, which takes care of all tables
that need few results.

## Main statements

- `Table.fills_answered`, `Table.sameShape_answered`: the filling that belongs to an order.
- `Table.exists_order_score_le`: one-sided diagrams of fillings are met.
- `Table.search_meets_fillings`: the search of a table against the searches of its fillings.
- `Table.free_cell_raises_score`: a table whose best filling is missed.
-/

namespace Dichotomy

/-! ## Literals in reduced trees -/

/-- What a diagram answers stands in one of its leaves. -/
theorem Diagram.mem_cells_of_eval {ι : Type} {d : Diagram ι} {a : Assignment} {cell : Cell}
    (h : d.eval a = .ok cell) : cell ∈ d.cells := by
  induction d with
  | leaf mark other =>
    obtain rfl : other = cell := Except.ok.inj h
    exact List.mem_singleton.mpr rfl
  | branch mark var high low ihHigh ihLow =>
    rw [eval] at h
    rw [cells, List.mem_append]
    split at h
    · exact .inl (ihHigh h)
    · exact .inr (ihLow h)
    · cases h

/-- **Leaves and demands**: a reduced tree is one free leaf, or its leaves, high sides first, stem
    from different values whose cells demand something, in the order of their rows. -/
theorem Tree.isFree_or_cells_sublist (order : List Int) (cells : List Bool → Cell) :
    (Tree.ofCells order cells).isFree = true ∨
      (Tree.ofCells order cells).cells.Sublist
        (((Assignment.all order.length).map cells).filter fun cell => !cell.isFree) := by
  induction order generalizing cells with
  | nil =>
    cases hfree : (cells []).isFree with
    | true => exact .inl hfree
    | false =>
      right
      have hrows : (Assignment.all 0).map cells = [cells []] := rfl
      simp [ofCells, Diagram.cells, hrows, hfree]
  | cons var order ih =>
    have hhigh := ih fun values => cells (true :: values)
    have hlow := ih fun values => cells (false :: values)
    -- The rows of the high side come first.
    rw [ofCells, List.length_cons, Assignment.all_succ, List.map_append, List.filter_append,
      List.map_map, List.map_map]
    rcases Diagram.reducedBranch_cases () var (Tree.ofCells order fun values => cells (true :: values))
        (Tree.ofCells order fun values => cells (false :: values)) with
      ⟨-, heq⟩ | ⟨-, heq⟩ | ⟨-, heq⟩ | ⟨hhighFree, hlowFree, -, heq⟩
    · rw [heq]
      exact hlow.imp_right fun h => h.trans (List.sublist_append_right _ _)
    · rw [heq]
      exact hhigh.imp_right fun h => h.trans (List.sublist_append_left _ _)
    · rw [heq]
      exact hhigh.imp_right fun h => h.trans (List.sublist_append_left _ _)
    · rw [heq]
      exact .inr ((hhigh.resolve_left hhighFree).append (hlow.resolve_left hlowFree))

/-- A reduced tree is one free leaf, or all its leaves demand something. -/
theorem Tree.isFree_or_cells_ofCells (order : List Int) (cells : List Bool → Cell) :
    (Tree.ofCells order cells).isFree = true ∨
      ∀ cell ∈ (Tree.ofCells order cells).cells, cell.isFree = false := by
  refine (isFree_or_cells_sublist order cells).imp_right fun hsublist cell hcell => ?_
  simpa using (List.mem_filter.mp (hsublist.subset hcell)).2

namespace Table

/-! ## Tables that demand less or more -/

/-- A table demands no more than another one: its literals stand in the other one as well. -/
structure Relaxes (table other : Table) : Prop where
  inputs : table.inputs = other.inputs
  literal : ∀ (row : Nat) (text : String), table.cells[row]? = some (.literal text) →
    other.cells[row]? = some (.literal text)

/-- A table is another one in which each free cell has been replaced by some literal. -/
structure Fills (filled table : Table) : Prop where
  relaxes : table.Relaxes filled
  full : ∀ cell ∈ filled.cells, cell.isFree = false

theorem Relaxes.trans {first second third : Table} (h : first.Relaxes second)
    (h' : second.Relaxes third) : first.Relaxes third where
  inputs := h.inputs.trans h'.inputs
  literal row text hcell := h'.literal row text (h.literal row text hcell)

variable {table filled : Table} {order : List Int}

/-- What is demanded along an order is demanded by the other table as well. -/
theorem Relaxes.cellAlong_eq (h : table.Relaxes filled)
    (horder : order.Perm (inputNumbers table.inputs)) {values : List Bool}
    (hlen : values.length = order.length)
    (hcell : (table.cellAlong order values).isFree = false) :
    table.cellAlong order values = filled.cellAlong order values := by
  have horder' : order.Perm (inputNumbers filled.inputs) := by rwa [← h.inputs]
  obtain ⟨a, ha, rfl⟩ := Assignment.exists_along_of_perm horder hlen
  have ha' := ha.trans h.inputs
  rw [cellAlong_along horder ha] at hcell ⊢
  rw [cellAlong_along horder' ha']
  have hrow := getElem?_cells (Assignment.row_lt_of_length ha)
  have hrow' := getElem?_cells (Assignment.row_lt_of_length ha')
  cases htext : table.cell a.row with
  | dontCare =>
    rw [htext] at hcell
    cases hcell
  | literal text =>
    rw [htext] at hrow
    exact Option.some.inj ((h.literal _ _ hrow).symm.trans hrow')

/-! ## The filling of an order -/

/-- The table of the answers of a diagram. -/
def answered {ι : Type} (table : Table) (d : Diagram ι) : Table where
  inputs := table.inputs
  cells := (Assignment.all table.inputs).map fun a => (d.eval a).toOption.getD .dontCare
  length_cells := by simp [Assignment.all]

theorem getElem?_answered {ι : Type} {d : Diagram ι} {row : Nat} {cell : Cell}
    (h : (table.answered d).cells[row]? = some cell) :
    row < rowCount table.inputs ∧
      cell = (d.eval (Assignment.ofRow table.inputs row)).toOption.getD .dontCare := by
  obtain ⟨hlt, hcell⟩ := List.getElem?_eq_some_iff.mp h
  rw [(table.answered d).length_cells] at hlt
  refine ⟨hlt, hcell.symm.trans ?_⟩
  simp [answered, Assignment.all]

/-- If something is demanded, every answer of a built diagram is a literal. -/
theorem exists_eval_root (hliteral : ∃ text, Cell.literal text ∈ table.cells)
    (horder : order.Perm (inputNumbers table.inputs)) {a : Assignment}
    (ha : a.length = table.inputs) :
    ∃ text, (table.root order).eval a = .ok (.literal text) := by
  obtain ⟨root, hbuild, hwalk⟩ := exists_build_eval_walk horder
  obtain rfl : table.root order = root := Except.ok.inj ((build_eq_root horder).symm.trans hbuild)
  obtain ⟨row, -, -, heval⟩ := hwalk a ha
  have hmem := Diagram.mem_cells_of_eval ((Diagram.eval_shape a (table.root order)).trans heval)
  rw [shape_root horder] at hmem
  rcases Tree.isFree_or_cells_ofCells order (table.cellAlong order) with hfree | hcells
  · -- A free leaf would not meet the demand.
    obtain ⟨text, htext⟩ := hliteral
    obtain ⟨row', hrow'⟩ := List.getElem?_of_mem htext
    have hdemand := eval_build_of_literal horder hbuild hrow'
    rw [← Diagram.eval_shape, shape_root horder, Diagram.eval_of_isFree hfree] at hdemand
    cases hdemand
  · cases hcell : table.cell row with
    | literal text => exact ⟨text, by rw [heval, hcell]⟩
    | dontCare =>
      have hfull := hcells _ hmem
      rw [hcell] at hfull
      cases hfull

/-- A built diagram computes the table of its answers. -/
theorem computes_answered (horder : order.Perm (inputNumbers table.inputs)) :
    (table.root order).Computes (table.answered (table.root order)) := by
  intro row cell hcell
  obtain ⟨-, rfl⟩ := getElem?_answered hcell
  obtain ⟨root, hbuild, hwalk⟩ := exists_build_eval_walk horder
  obtain rfl : table.root order = root := Except.ok.inj ((build_eq_root horder).symm.trans hbuild)
  obtain ⟨left, -, -, heval⟩ := hwalk _ (Assignment.length_ofRow _ row)
  exact heval.trans (by rw [heval]; rfl)

/-- The answers of a built diagram meet the demands of the table. -/
theorem relaxes_answered (horder : order.Perm (inputNumbers table.inputs)) :
    table.Relaxes (table.answered (table.root order)) where
  inputs := rfl
  literal := by
    intro row text hcell
    obtain ⟨hlt, -⟩ := List.getElem?_eq_some_iff.mp hcell
    rw [table.length_cells] at hlt
    have heval := eval_build_of_literal horder (build_eq_root horder) hcell
    have hanswer : (table.answered (table.root order)).cells[row]? =
        some ((table.answered (table.root order)).cell row) := getElem?_cells hlt
    rw [hanswer, (getElem?_answered hanswer).2, heval]
    rfl

/-- The answers of a built diagram fill the table. -/
theorem fills_answered (hliteral : ∃ text, Cell.literal text ∈ table.cells)
    (horder : order.Perm (inputNumbers table.inputs)) :
    (table.answered (table.root order)).Fills table where
  relaxes := relaxes_answered horder
  full := by
    intro cell hcell
    obtain ⟨row, hrow⟩ := List.getElem?_of_mem hcell
    obtain ⟨text, htext⟩ := exists_eval_root hliteral horder (Assignment.length_ofRow _ row)
    rw [(getElem?_answered hrow).2, htext]
    rfl

/-- For its order, the filling has the diagram of the table. -/
theorem sameShape_answered (hliteral : ∃ text, Cell.literal text ∈ table.cells)
    (horder : order.Perm (inputNumbers table.inputs)) :
    (table.root order).sameShape ((table.answered (table.root order)).root order) = true :=
  (sameShape_root_iff (fills_answered hliteral horder).full horder).mpr
    ⟨follows_root horder, isReduced_root horder, computes_answered horder⟩

/-- Every order has a filling whose diagram has the score of the table's diagram. -/
theorem exists_filling (hliteral : ∃ text, Cell.literal text ∈ table.cells)
    (horder : order.Perm (inputNumbers table.inputs)) :
    ∃ filled : Table, filled.Fills table ∧
      (table.root order).sameShape (filled.root order) = true ∧
      (filled.root order).score = (table.root order).score := by
  have hsame := sameShape_answered hliteral horder
  exact ⟨_, fills_answered hliteral horder, hsame, (Diagram.score_eq_of_sameShape hsame).symm⟩

/-! ## Diagrams of fillings that are met -/

/-- **One-sided diagrams of fillings are met**: if a table that demands more has a one-sided diagram
    for some order, then the table has a diagram that is no larger, perhaps for another order. -/
theorem exists_order_score_le (hrelaxes : table.Relaxes filled)
    (hfull : ∀ cell ∈ filled.cells, cell.isFree = false)
    (horder : order.Perm (inputNumbers filled.inputs)) (hone : (filled.root order).IsOneSided) :
    ∃ order' : List Int, order'.Perm (inputNumbers table.inputs) ∧
      (table.root order').score ≤ (filled.root order).score := by
  -- The tests of the diagram come first, and the other inputs in any sequence.
  have htests := follows_root horder _ hone.tests_mem_routes
  obtain ⟨rest, hrest⟩ := htests.exists_perm_append
  have horder' : ((filled.root order).tests ++ rest).Perm (inputNumbers filled.inputs) :=
    hrest.symm.trans horder
  have horderTable : ((filled.root order).tests ++ rest).Perm (inputNumbers table.inputs) := by
    rwa [hrelaxes.inputs]
  refine ⟨_, horderTable, ?_⟩
  rw [← Diagram.score_shape, shape_root horderTable]
  have hsmall := Tree.ofCells_atMost_of_isOneSided hone (List.prefix_append _ rest)
    (.of_perm horder') (realizes_of_computes (computes_root hfull horder) horder')
    (fun _ hlen => hrelaxes.cellAlong_eq horderTable hlen)
  rcases hsmall with hfree | hsmall
  · -- Where nothing is demanded, one result is enough.
    have hpos := (filled.root order).score_pos
    cases htree : Tree.ofCells ((filled.root order).tests ++ rest)
        (table.cellAlong ((filled.root order).tests ++ rest)) with
    | leaf mark cell => exact hpos
    | branch mark var high low =>
      rw [htree] at hfree
      cases hfree
  · exact hsmall.score

theorem score_root_le (horder : order.Perm (inputNumbers table.inputs)) :
    (table.root order).score ≤ rowCount table.inputs := by
  rw [← Diagram.score_shape, shape_root horder, ← length_of_perm_inputNumbers horder]
  exact Tree.score_ofCells_le _ _

/-! ## Least scores -/

/-- A search of the table reports this least score. -/
def Reports (table : Table) (least : Int) : Prop :=
  ∃ report, table.search = .ok report ∧ report.leastScore = .ok least

theorem reports_iff {least : Int} :
    table.Reports least ↔
      (∃ order : List Int, order.Perm (inputNumbers table.inputs) ∧
        least = (table.root order).score) ∧
      ∀ order : List Int, order.Perm (inputNumbers table.inputs) →
        least ≤ (table.root order).score := by
  obtain ⟨found, hfound, hreached, hbound⟩ := table.exists_leastScore
  have hreports : table.Reports least ↔ least = found := by
    constructor
    · rintro ⟨report, hsearch, hleast⟩
      obtain rfl : _ = report := Except.ok.inj (table.search_eq.symm.trans hsearch)
      exact Except.ok.inj (hleast.symm.trans hfound)
    · rintro rfl
      exact ⟨_, table.search_eq, hfound⟩
  rw [hreports]
  constructor
  · rintro rfl
    exact ⟨hreached, hbound⟩
  · rintro ⟨⟨order, horder, heq⟩, hbound'⟩
    obtain ⟨order', horder', heq'⟩ := hreached
    have hle := hbound order horder
    have hle' := hbound' order' horder'
    omega

theorem exists_reports (table : Table) : ∃ least, table.Reports least := by
  obtain ⟨least, hleast, -⟩ := table.exists_leastScore
  exact ⟨least, _, table.search_eq, hleast⟩

/-- The least score is the minimum of the scores of all orders. -/
theorem reports_iff_min? {least : Int} :
    table.Reports least ↔
      ((arrangements table.inputs).map fun order =>
        ((Tree.ofCells order (table.cellAlong order)).score : Int)).min? = some least := by
  have hscore {order : List Int} (horder : order.Perm (inputNumbers table.inputs)) :
      (Tree.ofCells order (table.cellAlong order)).score = (table.root order).score := by
    rw [← shape_root horder, Diagram.score_shape]
  simp only [reports_iff, List.min?_eq_some_iff, List.mem_map, forall_exists_index, and_imp,
    forall_apply_eq_imp_iff₂, mem_arrangements]
  constructor
  · rintro ⟨⟨order, horder, rfl⟩, hbound⟩
    refine ⟨⟨order, horder, by rw [hscore horder]⟩, fun order' horder' => ?_⟩
    rw [hscore horder']
    exact hbound order' horder'
  · rintro ⟨⟨order, horder, rfl⟩, hbound⟩
    refine ⟨⟨order, horder, by rw [hscore horder]⟩, fun order' horder' => ?_⟩
    rw [← hscore horder']
    exact hbound order' horder'

/-! ## Fillings of least score -/

/-- The least scores that searches of the fillings report. -/
def fillingScores (table : Table) : Set Int :=
  {score | ∃ filled : Table, filled.Fills table ∧ filled.Reports score}

/-- For each order, some filling is reported with no larger score than the order has. -/
theorem exists_mem_fillingScores (hliteral : ∃ text, Cell.literal text ∈ table.cells)
    (horder : order.Perm (inputNumbers table.inputs)) :
    ∃ score ∈ table.fillingScores, score ≤ (table.root order).score := by
  obtain ⟨filled, hfills, -, hsame⟩ := exists_filling hliteral horder
  obtain ⟨score, hscore⟩ := filled.exists_reports
  have horder' : order.Perm (inputNumbers filled.inputs) := by rwa [← hfills.relaxes.inputs]
  have hle := (reports_iff.mp hscore).2 order horder'
  exact ⟨score, ⟨filled, hfills, hscore⟩, by omega⟩

theorem exists_isLeast_fillingScores (hliteral : ∃ text, Cell.literal text ∈ table.cells) :
    ∃ best, IsLeast table.fillingScores best := by
  obtain ⟨score, hscore, -⟩ := exists_mem_fillingScores hliteral (.refl _)
  -- Scores are not negative, so there is a least one.
  have hbounded : ∀ score ∈ table.fillingScores, 0 ≤ score := by
    rintro score ⟨filled, -, hreports⟩
    obtain ⟨⟨order, -, rfl⟩, -⟩ := reports_iff.mp hreports
    exact Int.natCast_nonneg _
  obtain ⟨best, hbest, hleast⟩ := Int.exists_least_of_bdd ⟨0, hbounded⟩ ⟨score, hscore⟩
  exact ⟨best, hbest, fun score hscore => hleast score hscore⟩

variable {least best : Int}

theorem best_le_least (hliteral : ∃ text, Cell.literal text ∈ table.cells)
    (hleast : table.Reports least) (hbest : IsLeast table.fillingScores best) : best ≤ least := by
  obtain ⟨⟨order, horder, rfl⟩, -⟩ := reports_iff.mp hleast
  obtain ⟨score, hscore, hle⟩ := exists_mem_fillingScores hliteral horder
  exact (hbest.2 hscore).trans hle

/-- A one-sided diagram of least score shows that the best filling is met. -/
theorem least_le_of_isOneSided (hleast : table.Reports least) (hfills : filled.Fills table)
    (horder : order.Perm (inputNumbers filled.inputs)) (hone : (filled.root order).IsOneSided) :
    least ≤ (filled.root order).score := by
  obtain ⟨order', hperm, hle⟩ := exists_order_score_le hfills.relaxes hfills.full horder hone
  have hbound := (reports_iff.mp hleast).2 order' hperm
  omega

/-- The best filling is met if it needs at most three results. -/
theorem least_le_best (hleast : table.Reports least) (hbest : IsLeast table.fillingScores best)
    (hfew : best ≤ 3) : least ≤ best := by
  obtain ⟨⟨filled, hfills, hreports⟩, -⟩ := hbest
  obtain ⟨⟨order, horder, rfl⟩, -⟩ := reports_iff.mp hreports
  exact least_le_of_isOneSided hleast hfills horder (Diagram.isOneSided_of_score_le (by omega))

/-- Freeing cells does not raise the least score, as long as few results are needed before or
    after. -/
theorem Relaxes.reports_le {relaxed : Table} {least' : Int}
    (hliteral : ∃ text, Cell.literal text ∈ table.cells) (hrelaxes : relaxed.Relaxes table)
    (hleast : table.Reports least) (hleast' : relaxed.Reports least')
    (hfew : least ≤ 3 ∨ least' ≤ 4) : least' ≤ least := by
  obtain ⟨⟨order, horder, hscore⟩, -⟩ := reports_iff.mp hleast
  by_contra hlarger
  -- The filling that belongs to the best order is one of the relaxed table as well.
  obtain ⟨filled, hfills, -, hfilled⟩ := exists_filling hliteral horder
  have horder' : order.Perm (inputNumbers filled.inputs) := by rwa [← hfills.relaxes.inputs]
  have hone : (filled.root order).IsOneSided := Diagram.isOneSided_of_score_le (by omega)
  have hle := least_le_of_isOneSided hleast' ⟨hrelaxes.trans hfills.relaxes, hfills.full⟩ horder'
    hone
  omega

/-- **The search against all fillings**: for each order, the diagram of a table is that of some
    filling, so the least score of the table is never below the least one of its fillings.  It is
    the same if the table needs at most four results, or some filling at most three, or there are at
    most two inputs, or some one-sided diagram of a filling has the least score.  So freeing cells
    does not raise the least score if that was at most three before or is at most four after. -/
theorem search_meets_fillings (table : Table)
    (hliteral : ∃ text, Cell.literal text ∈ table.cells) :
    (∀ order : List Int, order.Perm (inputNumbers table.inputs) →
      ∃ (filled : Table) (root root' : Node), filled.Fills table ∧ table.build order = .ok root ∧
        filled.build order = .ok root' ∧ root.sameShape root' = true) ∧
      ∃ least best : Int, table.Reports least ∧ IsLeast table.fillingScores best ∧ best ≤ least ∧
        ((least ≤ 4 ∨ best ≤ 3 ∨ table.inputs ≤ 2 ∨
            ∃ (filled : Table) (order : List Int) (root : Node), filled.Fills table ∧
              order.Perm (inputNumbers table.inputs) ∧ filled.build order = .ok root ∧
              root.score = best ∧ root.IsOneSided) → least = best) ∧
        ∀ relaxed : Table, relaxed.Relaxes table →
          ∃ least', relaxed.Reports least' ∧ (least ≤ 3 ∨ least' ≤ 4 → least' ≤ least) := by
  refine ⟨fun order horder => ?_, ?_⟩
  · obtain ⟨filled, hfills, hsame, -⟩ := exists_filling hliteral horder
    have horder' : order.Perm (inputNumbers filled.inputs) := by rwa [← hfills.relaxes.inputs]
    exact ⟨filled, _, _, hfills, build_eq_root horder, build_eq_root horder', hsame⟩
  obtain ⟨least, hleast⟩ := table.exists_reports
  obtain ⟨best, hbest⟩ := exists_isLeast_fillingScores hliteral
  have hbelow := best_le_least hliteral hleast hbest
  -- Four results are one more than what is met anyway, and nothing is below the best filling.
  have hfour (hfew : least ≤ 4) : least = best := by
    by_cases hthree : best ≤ 3
    · exact le_antisymm (least_le_best hleast hbest hthree) hbelow
    · omega
  refine ⟨least, best, hleast, hbest, hbelow, ?_, fun relaxed hrelaxes => ?_⟩
  · rintro (hfew | hfew | hinputs | ⟨filled, order, root, hfills, horder, hbuild, hroot, hone⟩)
    · exact hfour hfew
    · exact le_antisymm (least_le_best hleast hbest hfew) hbelow
    · -- Two inputs make four rows.
      obtain ⟨⟨order, horder, rfl⟩, -⟩ := reports_iff.mp hleast
      have hrows := score_root_le horder
      have hmost : rowCount table.inputs ≤ 4 := Nat.pow_le_pow_right (by decide : 0 < 2) hinputs
      exact hfour (by omega)
    · have horder' : order.Perm (inputNumbers filled.inputs) := by rwa [← hfills.relaxes.inputs]
      obtain rfl : filled.root order = root :=
        Except.ok.inj ((build_eq_root horder').symm.trans hbuild)
      rw [← hroot]
      exact le_antisymm (least_le_of_isOneSided hleast hfills horder' hone) (hroot ▸ hbelow)
  · obtain ⟨least', hleast'⟩ := relaxed.exists_reports
    exact ⟨least', hleast', hrelaxes.reports_le hliteral hleast hleast'⟩

/-- A free cell over two inputs, which the best filling makes equal to its neighbours. -/
theorem search_meets_fillings_two :
    let table : Table := ⟨2, [.literal "A", .literal "B", .dontCare, .literal "B"], rfl⟩
    (∃ text, Cell.literal text ∈ table.cells) ∧
      ∃ least, table.Reports least ∧ IsLeast table.fillingScores least := by
  intro table
  have hliteral : ∃ text, Cell.literal text ∈ table.cells := ⟨"A", List.mem_cons_self⟩
  obtain ⟨-, least, best, hleast, hbest, -, heq, -⟩ := search_meets_fillings table hliteral
  rw [← heq (.inr (.inr (.inl (Nat.le_refl 2))))] at hbest
  exact ⟨hliteral, least, hleast, hbest⟩

/-- Two free cells in the last two of eight rows, where each order misses the filling that is best:
    it has four results, and the table five.  With one of the two cells free there are four. -/
theorem free_cell_raises_score :
    let filled : Table := ⟨3, [.literal "A", .literal "A", .literal "A", .literal "B",
      .literal "B", .literal "A", .literal "B", .literal "B"], rfl⟩
    let table : Table := ⟨3, [.literal "A", .literal "A", .literal "A", .literal "B",
      .literal "B", .literal "A", .literal "B", .dontCare], rfl⟩
    let freed : Table := ⟨3, [.literal "A", .literal "A", .literal "A", .literal "B",
      .literal "B", .literal "A", .dontCare, .dontCare], rfl⟩
    filled.Fills freed ∧ freed.Relaxes table ∧ filled.Reports 4 ∧ table.Reports 4 ∧
      freed.Reports 5 := by
  intro filled table freed
  have hrelaxes (other : Table) (hinputs : 3 = other.inputs)
      (hcells : ∀ row < 6, other.cells[row]? = freed.cells[row]?) : freed.Relaxes other := by
    refine ⟨hinputs, fun row text hcell => ?_⟩
    obtain ⟨hlt, hget⟩ := List.getElem?_eq_some_iff.mp hcell
    have hrow : row < 8 := hlt
    by_cases hsix : row < 6
    · rw [hcells row hsix, hcell]
    · interval_cases row <;> cases hget
  refine ⟨⟨hrelaxes filled rfl (by decide), by decide⟩, hrelaxes table rfl (by decide), ?_, ?_, ?_⟩
  · exact reports_iff_min?.mpr (by decide +kernel)
  · exact reports_iff_min?.mpr (by decide +kernel)
  · exact reports_iff_min?.mpr (by decide +kernel)

end Table

end Dichotomy
