import Dichotomy.Proofs.ExhaustiveSearch
import Dichotomy.Proofs.OrderAction

/-!
# Renaming inputs and literals

Building compares diagrams and asks which leaves are free, and nothing else.  So if other names are
given to the inputs and to the literals, different ones to different ones, the same diagram is built
with the new names in it.  To rearrange a table before it is searched is to rename its inputs, which
leads through the same orders in another sequence.

## Main statements

- `Tree.ofCells_renamed`: reduced trees with other names.
- `Table.cellAlong_rearrangedFor`: where the cells of a rearranged table are met.
- `Table.score_independent_of_names`: diagrams, scores and reports under both kinds of renaming.
-/

namespace Dichotomy

/-! ## Other names in a diagram -/

/-- Other names for inputs and cells, different ones for different ones; free cells stay free. -/
structure Renaming where
  /-- The new name of an input. -/
  input : Int → Int
  /-- What becomes of a cell. -/
  cell : Cell → Cell
  input_injective : Function.Injective input
  cell_injective : Function.Injective cell
  isFree_cell : ∀ c, (cell c).isFree = c.isFree

namespace Diagram

variable {ι : Type}

/-- A diagram with other names in it. -/
def renamed (r : Renaming) : Diagram ι → Diagram ι
  | leaf mark cell => leaf mark (r.cell cell)
  | branch mark var high low => branch mark (r.input var) (high.renamed r) (low.renamed r)

variable (r : Renaming)

theorem shape_renamed (d : Diagram ι) : (d.renamed r).shape = d.shape.renamed r := by
  induction d with
  | leaf mark cell => rfl
  | branch mark var high low ihHigh ihLow =>
    rw [renamed, shape_branch, ihHigh, ihLow]
    rfl

theorem isFree_renamed (d : Diagram ι) : (d.renamed r).isFree = d.isFree := by
  cases d with
  | leaf mark cell => exact r.isFree_cell cell
  | branch => rfl

/-- Different diagrams stay different. -/
theorem renamed_injective : Function.Injective (renamed r : Diagram ι → Diagram ι) := by
  intro d d' h
  induction d generalizing d' with
  | leaf mark cell =>
    cases d' with
    | leaf mark' cell' =>
      obtain ⟨rfl, hcell⟩ := Diagram.leaf.inj h
      rw [r.cell_injective hcell]
    | branch => cases h
  | branch mark var high low ihHigh ihLow =>
    cases d' with
    | leaf => cases h
    | branch mark' var' high' low' =>
      obtain ⟨rfl, hvar, hhigh, hlow⟩ := Diagram.branch.inj h
      rw [r.input_injective hvar, ihHigh hhigh, ihLow hlow]

theorem sameShape_renamed (high low : Diagram ι) :
    (high.renamed r).sameShape (low.renamed r) = high.sameShape low := by
  rw [Bool.eq_iff_iff, sameShape_iff, sameShape_iff, shape_renamed, shape_renamed]
  exact (renamed_injective r).eq_iff

/-- Reduction does not look at names. -/
theorem reducedBranch_renamed (mark : ι) (var : Int) (high low : Diagram ι) :
    (reducedBranch mark var high low).renamed r =
      reducedBranch mark (r.input var) (high.renamed r) (low.renamed r) := by
  have hreduction : Reduction.of (high.renamed r) (low.renamed r) = Reduction.of high low := by
    rw [Reduction.of, Reduction.of, isFree_renamed, isFree_renamed, sameShape_renamed]
  rw [reducedBranch, reducedBranch, hreduction]
  cases Reduction.of high low <;> rfl

/-! ## Scores -/

theorem isMergeable_renamed (d : Diagram ι) : (d.renamed r).isMergeable = d.isMergeable := by
  rcases d with _ | ⟨_, _, _ | ⟨_, _, _, ⟨_, inner⟩ | _⟩, ⟨_, outer⟩ | _⟩
  case branch.branch.leaf.leaf =>
    -- Only here two cells are compared.
    simp only [renamed, isMergeable, beq_eq_decide, r.cell_injective.eq_iff]
  all_goals rfl

/-- The score does not depend on names. -/
theorem score_renamed (d : Diagram ι) : (d.renamed r).score = d.score := by
  induction d with
  | leaf mark cell => rfl
  | branch mark var high low ihHigh ihLow =>
    have hmerge := isMergeable_renamed r (branch mark var high low)
    rw [renamed] at hmerge ⊢
    rw [score, score, hmerge, ihHigh, ihLow]

theorem score_eq_of_sameShape_renamed {d d' : Diagram ι}
    (h : (d.renamed r).sameShape d' = true) : d.score = d'.score := by
  rw [← score_renamed r d, ← score_shape, sameShape_iff.mp h, score_shape]

end Diagram

/-- Reduced trees with other names are the reduced trees of the renamed cells along the renamed
    order. -/
theorem Tree.ofCells_renamed (r : Renaming) (order : List Int) (cells : List Bool → Cell) :
    (Tree.ofCells order cells).renamed r =
      Tree.ofCells (order.map r.input) fun values => r.cell (cells values) := by
  induction order generalizing cells with
  | nil => rfl
  | cons var order ih => rw [ofCells, Diagram.reducedBranch_renamed, ih, ih, List.map_cons, ofCells]

/-! ## Orders of renamed inputs -/

/-- All orders are met again when each of them is renamed. -/
theorem perm_map_arrangements {n : Nat} {sigma : List Int} (hsigma : sigma.Perm (inputNumbers n)) :
    ((arrangements n).map (List.map (inputAt sigma))).Perm (arrangements n) := by
  have hnodup : ((arrangements n).map (List.map (inputAt sigma))).Nodup :=
    (nodup_arrangements n).map (List.map_injective_iff.mpr (inputAt_injective hsigma))
  have hsub : (arrangements n).map (List.map (inputAt sigma)) ⊆ arrangements n := by
    intro order horder
    obtain ⟨tau, htau, rfl⟩ := List.mem_map.mp horder
    exact mem_arrangements.mpr (perm_map_inputAt hsigma (mem_arrangements.mp htau))
  exact (hnodup.subperm hsub).perm_of_length_le (by rw [List.length_map])

/-- Other names for the inputs: the levels of an order for its inputs. -/
def Renaming.ofOrder {n : Nat} {sigma : List Int} (hsigma : sigma.Perm (inputNumbers n)) :
    Renaming where
  input := inputAt sigma
  cell := id
  input_injective := inputAt_injective hsigma
  cell_injective := Function.injective_id
  isFree_cell _ := rfl

/-- A cell with another text; a free cell has none. -/
def Cell.retold (f : String → String) : Cell → Cell
  | literal text => literal (f text)
  | dontCare => dontCare

/-- Other texts for the literals. -/
def Renaming.ofTexts {f : String → String} (hf : Function.Injective f) : Renaming where
  input := id
  cell := Cell.retold f
  input_injective := Function.injective_id
  cell_injective := by
    intro c c' h
    cases c <;> cases c' <;> simp_all [Cell.retold, hf.eq_iff]
  isFree_cell c := by cases c <;> rfl

/-! ## Reports with the same scores -/

namespace Report

variable {report report' : Report}

/-- The least score depends on the scores only, in whatever sequence. -/
theorem min?_eq_of_perm
    (h : (report.candidates.map (·.score)).Perm (report'.candidates.map (·.score))) :
    (report.candidates.map (·.score)).min? = (report'.candidates.map (·.score)).min? := by
  cases hmin : (report'.candidates.map (·.score)).min? with
  | none =>
    rw [List.min?_eq_none_iff] at hmin ⊢
    rw [hmin] at h
    exact h.eq_nil
  | some least =>
    rw [List.min?_eq_some_iff] at hmin ⊢
    exact ⟨h.mem_iff.mpr hmin.1, fun score hscore => hmin.2 score (h.mem_iff.mp hscore)⟩

theorem leastScore_eq_of_perm
    (h : (report.candidates.map (·.score)).Perm (report'.candidates.map (·.score))) :
    report.leastScore = report'.leastScore := by
  rw [leastScore, leastScore, min?_eq_of_perm h]

/-- So does the number of candidates that have it. -/
theorem length_optimal_eq_of_perm
    (h : (report.candidates.map (·.score)).Perm (report'.candidates.map (·.score))) :
    report.optimal.length = report'.optimal.length := by
  have hcount (candidates : List Candidate) (least : Int) :
      (candidates.filter (·.score == least)).length =
        (candidates.map (·.score)).countP (· == least) := by
    rw [List.countP_map, List.countP_eq_length_filter]
    rfl
  rw [optimal, optimal, leastScored, leastScored, min?_eq_of_perm h]
  cases (report'.candidates.map (·.score)).min? with
  | none => rfl
  | some least =>
    simp only [hcount]
    exact h.countP_eq _

end Report

/-! ## Tables with other names -/

namespace Table

variable {table : Table} {sigma tau : List Int}

/-- Along an order of levels, a rearranged table has the cells that the table has along the order of
    the inputs at these levels. -/
theorem cellAlong_rearrangedFor (hsigma : sigma.Perm (inputNumbers table.inputs))
    (htau : tau.Perm (inputNumbers table.inputs)) {values : List Bool}
    (hlen : values.length = tau.length) :
    (table.rearrangedFor sigma).cellAlong tau values =
      table.cellAlong (tau.map (inputAt sigma)) values := by
  have hlength : values.length = table.inputs := hlen.trans (length_of_perm_inputNumbers htau)
  have hrow : Assignment.row values < rowCount table.inputs := Assignment.row_lt_of_length hlength
  have hmoved : (table.rearrangedFor sigma).inputs = table.inputs := rfl
  rw [cellAlong, hmoved, cell_rearrangedFor (sourceRow_lt htau hrow),
    sourceRow_sourceRow hsigma htau hrow, cellAlong]

/-- The diagram of a rearranged table, with the inputs for the levels, is the diagram of the table
    for the order of the inputs. -/
theorem sameShape_rearrangedFor (hsigma : sigma.Perm (inputNumbers table.inputs))
    (htau : tau.Perm (inputNumbers table.inputs)) :
    (((table.rearrangedFor sigma).root tau).renamed (.ofOrder hsigma)).sameShape
      (table.root (tau.map (inputAt sigma))) = true := by
  have htau' : tau.Perm (inputNumbers (table.rearrangedFor sigma).inputs) := htau
  rw [Diagram.sameShape_iff, Diagram.shape_renamed, shape_root htau',
    shape_root (perm_map_inputAt hsigma htau), Tree.ofCells_renamed]
  refine Tree.ofCells_congr fun values hlen => ?_
  exact cellAlong_rearrangedFor hsigma htau (by simpa [Renaming.ofOrder] using hlen)

/-- The search of a rearranged table meets the same scores in another sequence. -/
theorem perm_scores_rearrangedFor (hsigma : sigma.Perm (inputNumbers table.inputs)) :
    ((table.rearrangedFor sigma).found.map (·.score)).Perm (table.found.map (·.score)) := by
  have hscores : (table.rearrangedFor sigma).found.map (·.score) =
      ((arrangements table.inputs).map (List.map (inputAt sigma))).map
        fun order => ((table.root order).score : Int) := by
    rw [scores_found, List.map_map]
    refine List.map_congr_left fun tau htau => ?_
    have hsame := sameShape_rearrangedFor hsigma (mem_arrangements.mp htau)
    exact congrArg Nat.cast (Diagram.score_eq_of_sameShape_renamed _ hsame)
  rw [hscores, scores_found]
  exact (perm_map_arrangements hsigma).map _

/-- A table in which each literal has another text. -/
def retold (table : Table) (f : String → String) : Table where
  inputs := table.inputs
  cells := table.cells.map (Cell.retold f)
  length_cells := by rw [List.length_map, table.length_cells]

theorem cell_retold {f : String → String} {row : Nat} (h : row < rowCount table.inputs) :
    (table.retold f).cell row = (table.cell row).retold f := by
  have hcell : (table.retold f).cells[row]? = some ((table.retold f).cell row) := getElem?_cells h
  have hmap : (table.retold f).cells[row]? = (table.cells[row]?).map (Cell.retold f) :=
    List.getElem?_map
  rw [hmap, getElem?_cells h] at hcell
  exact (Option.some.inj hcell).symm

/-- The diagram of a table with other texts is the diagram of the table with these texts. -/
theorem sameShape_retold {f : String → String} (hf : Function.Injective f) {order : List Int}
    (horder : order.Perm (inputNumbers table.inputs)) :
    ((table.root order).renamed (.ofTexts hf)).sameShape ((table.retold f).root order) = true := by
  have horder' : order.Perm (inputNumbers (table.retold f).inputs) := horder
  rw [Diagram.sameShape_iff, Diagram.shape_renamed, shape_root horder, shape_root horder',
    Tree.ofCells_renamed]
  have hinputs : order.map (Renaming.ofTexts hf).input = order := List.map_id order
  rw [hinputs]
  refine Tree.ofCells_congr fun values hlen => ?_
  obtain ⟨a, ha, rfl⟩ := Assignment.exists_along_of_perm horder hlen
  rw [cellAlong_along horder ha, cellAlong_along horder' ha,
    cell_retold (Assignment.row_lt_of_length ha)]
  rfl

/-- **Names do not matter**: a table that is rearranged for an order `sigma` of its inputs has, for
    each order `tau`, the diagram of the table for the order of the inputs that stand in `sigma` at
    the levels `tau`, once these inputs are named in it.  So both have the same score, and searches
    of both tables report the same scores, the same least one and as many best orders.  And if the
    literals are given other texts, different ones for different ones, the diagram for each order is
    the same one with these texts, and has the same score. -/
theorem score_independent_of_names (table : Table) :
    (∀ (sigma : List Int) (hsigma : sigma.Perm (inputNumbers table.inputs)),
      ∃ moved : Table, moved.inputs = table.inputs ∧
        rearranged table.inputs sigma table.cells = .ok moved.cells ∧
        (∀ tau : List Int, tau.Perm (inputNumbers table.inputs) →
          ∃ root root', moved.build tau = .ok root ∧
            table.build (tau.map (inputAt sigma)) = .ok root' ∧
            (root.renamed (.ofOrder hsigma)).sameShape root' = true ∧ root.score = root'.score) ∧
        ∃ report report' least, table.search = .ok report ∧ moved.search = .ok report' ∧
          (report'.candidates.map (·.score)).Perm (report.candidates.map (·.score)) ∧
          report.leastScore = .ok least ∧ report'.leastScore = .ok least ∧
          report'.optimal.length = report.optimal.length) ∧
    ∀ (f : String → String) (hf : Function.Injective f) (order : List Int),
      order.Perm (inputNumbers table.inputs) →
        ∃ root root', table.build order = .ok root ∧ (table.retold f).build order = .ok root' ∧
          (root.renamed (.ofTexts hf)).sameShape root' = true ∧ root.score = root'.score := by
  refine ⟨fun sigma hsigma => ?_, fun f hf order horder => ?_⟩
  · have hscores := perm_scores_rearrangedFor hsigma
    obtain ⟨least, hleast, -⟩ := table.exists_leastScore
    refine ⟨table.rearrangedFor sigma, rfl, rearranged_eq hsigma, fun tau htau => ?_, ?_⟩
    · have hsame := sameShape_rearrangedFor hsigma htau
      exact ⟨_, _, build_eq_root htau, build_eq_root (perm_map_inputAt hsigma htau), hsame,
        Diagram.score_eq_of_sameShape_renamed _ hsame⟩
    · refine ⟨_, _, least, table.search_eq, search_eq _, hscores, hleast, ?_,
        Report.length_optimal_eq_of_perm hscores⟩
      exact (Report.leastScore_eq_of_perm hscores).trans hleast
  · have hsame := sameShape_retold hf horder
    have horder' : order.Perm (inputNumbers (table.retold f).inputs) := horder
    exact ⟨_, _, build_eq_root horder, build_eq_root horder', hsame,
      Diagram.score_eq_of_sameShape_renamed _ hsame⟩

/-- Three inputs named around in a circle, and texts that get a letter in front. -/
theorem score_independent_of_names_circle :
    let table : Table := ⟨3, [.literal "A", .literal "B", .dontCare, .literal "C", .literal "A",
      .literal "A", .literal "B", .dontCare], rfl⟩
    ([1, 2, 0] : List Int).Perm (inputNumbers 3) ∧ ([2, 0, 1] : List Int).Perm (inputNumbers 3) ∧
      Function.Injective (fun text : String => "x" ++ text) ∧
      (∃ moved : Table, rearranged 3 [1, 2, 0] table.cells = .ok moved.cells ∧
        ∃ root root', moved.build [2, 0, 1] = .ok root ∧ table.build [0, 1, 2] = .ok root' ∧
          root.score = root'.score) ∧
      ∃ root root', table.build [2, 0, 1] = .ok root ∧
        (table.retold fun text => "x" ++ text).build [2, 0, 1] = .ok root' ∧
        root.score = root'.score := by
  intro table
  have hsigma : ([1, 2, 0] : List Int).Perm (inputNumbers 3) := by decide
  have htau : ([2, 0, 1] : List Int).Perm (inputNumbers 3) := by decide
  have hletter : Function.Injective (fun text : String => "x" ++ text) := fun _ _ h =>
    (String.append_right_inj "x").mp h
  obtain ⟨hinputs, htexts⟩ := score_independent_of_names table
  obtain ⟨moved, -, hmoved, hbuild, -⟩ := hinputs [1, 2, 0] hsigma
  obtain ⟨root, root', hroot, hroot', -, hscore⟩ := hbuild [2, 0, 1] htau
  obtain ⟨node, node', hnode, hnode', -, hscore'⟩ := htexts _ hletter [2, 0, 1] htau
  exact ⟨hsigma, htau, hletter, ⟨moved, hmoved, root, root', hroot, hroot', hscore⟩,
    node, node', hnode, hnode', hscore'⟩

end Table

end Dichotomy
