import Dichotomy.Proofs.Optimality

/-!
# The canonical form

For a table without free cells and an order of its inputs, there is only one shape of a diagram
that follows the order, makes no needless test and computes the table: the one that is built.  Two
such diagrams may test different inputs in different places, so they are not compared node by node
but by what is left of each once the inputs of the order have their values, one after the other.

## Main statements

- `Diagram.shape_eq_of_eval_eq`: reduced diagrams that follow an order have one shape if they give
  the same answers.
- `Table.build_canonical`: the built diagram is the only one, and it tells tables apart.
-/

namespace Dichotomy

namespace Diagram

variable {ι : Type}

/-! ## Needless tests -/

/-- No test has two sides of one shape. -/
def IsReduced : Diagram ι → Prop
  | leaf _ _ => True
  | branch _ _ high low => high.shape ≠ low.shape ∧ high.IsReduced ∧ low.IsReduced

theorem isReduced_shape (d : Diagram ι) : d.shape.IsReduced ↔ d.IsReduced := by
  induction d with
  | leaf mark cell => exact Iff.rfl
  | branch mark var high low ihHigh ihLow =>
    rw [shape_branch, IsReduced, IsReduced, shape_shape, shape_shape, ihHigh, ihLow]

/-- Reduction makes no needless test. -/
theorem isReduced_reducedBranch {mark : ι} {var : Int} {high low : Diagram ι}
    (hhigh : high.IsReduced) (hlow : low.IsReduced) :
    (reducedBranch mark var high low).IsReduced := by
  rcases reducedBranch_cases mark var high low with
    ⟨-, heq⟩ | ⟨-, heq⟩ | ⟨-, heq⟩ | ⟨-, -, hne, heq⟩
  · rwa [heq]
  · rwa [heq]
  · rwa [heq]
  · rw [heq]
    exact ⟨hne, hhigh, hlow⟩

end Diagram

theorem Tree.isReduced_ofCells (order : List Int) (cells : List Bool → Cell) :
    (Tree.ofCells order cells).IsReduced := by
  induction order generalizing cells with
  | nil => exact trivial
  | cons var order ih => exact Diagram.isReduced_reducedBranch (ih _) (ih _)

namespace Diagram

variable {ι : Type}

/-! ## One shape only -/

variable {κ : Type} {n : Nat} {order : List Int}

/-- What is left of a diagram once the first input of the order has a value, and how the shape of
    the diagram is made up of the shapes of what is left. -/
theorem Follows.exists_sides {d : Diagram ι} {var : Int} (h : d.Follows (var :: order))
    (hreduced : d.IsReduced) (hinputs : DistinctInputs n (var :: order)) :
    ∃ side : Bool → Diagram ι,
      (∀ value, (side value).Follows order ∧ (side value).IsReduced ∧
        ∀ a : Assignment, a.length = n → d.eval (a.update var value) = (side value).eval a) ∧
      d.shape = if (side true).shape = (side false).shape then (side true).shape
        else branch () var (side true).shape (side false).shape := by
  rcases h.root_or_rest with ⟨mark, high, low, rfl⟩ | hskips
  · obtain ⟨hne, hhighReduced, hlowReduced⟩ := hreduced
    obtain ⟨hhighFollows, hlowFollows⟩ := follows_branch_self.mp h
    refine ⟨fun value => cond value high low, fun value => ?_, (if_neg hne).symm⟩
    have hside : (cond value high low).Follows order := by cases value <;> assumption
    refine ⟨hside, by cases value <;> assumption, ?_⟩
    rintro a rfl
    exact eval_branch_update value hside hinputs
  · -- The input is not tested, so nothing changes.
    refine ⟨fun _ => d, fun value => ⟨hskips, hreduced, ?_⟩, (if_pos rfl).symm⟩
    rintro a rfl
    exact hskips.eval_update value hinputs

/-- **Canonical form**: diagrams that follow an order and make no needless test have one shape if
    they give the same answers. -/
theorem shape_eq_of_eval_eq {d : Diagram ι} {d' : Diagram κ} (hinputs : DistinctInputs n order)
    (hfollows : d.Follows order) (hfollows' : d'.Follows order) (hreduced : d.IsReduced)
    (hreduced' : d'.IsReduced)
    (heval : ∀ a : Assignment, a.length = n → d.eval a = d'.eval a) : d.shape = d'.shape := by
  induction order generalizing d d' with
  | nil =>
    obtain ⟨mark, cell, rfl⟩ := hfollows.exists_leaf
    obtain ⟨mark', cell', rfl⟩ := hfollows'.exists_leaf
    obtain rfl : cell = cell' :=
      Except.ok.inj (heval (List.replicate n true) List.length_replicate)
    rfl
  | cons var order ih =>
    obtain ⟨side, hside, hshape⟩ := hfollows.exists_sides hreduced hinputs
    obtain ⟨side', hside', hshape'⟩ := hfollows'.exists_sides hreduced' hinputs
    -- What is left for one value of the input gives the same answers on both sides.
    have heq (value : Bool) : (side value).shape = (side' value).shape := by
      obtain ⟨hfollows, hreduced, hleft⟩ := hside value
      obtain ⟨hfollows', hreduced', hleft'⟩ := hside' value
      refine ih hinputs.tail hfollows hfollows' hreduced hreduced' fun a ha => ?_
      rw [← hleft a ha, ← hleft' a ha, heval _ ((Assignment.length_update _ _ _).trans ha)]
    rw [hshape, hshape', heq true, heq false]

end Diagram

/-- The reduced tree of some cells gives them as answers, if none of them is free. -/
theorem Tree.realizes_ofCells {n : Nat} {order : List Int} {cells : List Bool → Cell}
    (hinputs : DistinctInputs n order)
    (hfull : ∀ values, values.length = order.length → (cells values).isFree = false) :
    (Tree.ofCells order cells).Realizes n order cells := by
  induction order generalizing cells with
  | nil => exact fun a _ => rfl
  | cons var order ih =>
    rintro a rfl
    have hfull' (value : Bool) : ∀ values, values.length = order.length →
        (cells (value :: values)).isFree = false := fun values hlen =>
      hfull (value :: values) (congrArg Nat.succ hlen)
    have hside (value : Bool) := ih hinputs.tail (hfull' value) a rfl
    rw [ofCells, Diagram.eval_reducedBranch (Assignment.atPosition_eq hinputs.head),
      Assignment.along_cons]
    -- No side is free, so the one that the input chooses answers.
    cases a.value var
    · rw [cond_false, isFree_ofCells_of_full (hfull' false)]
      exact hside false
    · rw [cond_true, isFree_ofCells_of_full (hfull' true)]
      exact hside true

namespace Diagram

variable {ι : Type}

/-- A diagram that follows an order and makes no needless test has the shape of the reduced tree of
    its answers, if none of them is free. -/
theorem shape_eq_ofCells {n : Nat} {order : List Int} {cells : List Bool → Cell} {d : Diagram ι}
    (hinputs : DistinctInputs n order)
    (hfull : ∀ values, values.length = order.length → (cells values).isFree = false)
    (hfollows : d.Follows order) (hrealizes : d.Realizes n order cells) (hreduced : d.IsReduced) :
    d.shape = Tree.ofCells order cells := by
  rw [← Tree.shape_eq (Tree.ofCells order cells)]
  refine shape_eq_of_eval_eq hinputs hfollows (Tree.follows_ofCells order cells) hreduced
    (Tree.isReduced_ofCells order cells) fun a ha => ?_
  rw [hrealizes a ha, Tree.realizes_ofCells hinputs hfull a ha]

/-- Diagrams of one shape have one score. -/
theorem score_eq_of_sameShape {d d' : Diagram ι} (h : d.sameShape d' = true) :
    d.score = d'.score := by
  rw [← score_shape, sameShape_iff.mp h, score_shape]

/-- Diagrams of one shape compute the same tables. -/
theorem computes_congr {d d' : Diagram ι} (h : d.shape = d'.shape) {table : Table} :
    d.Computes table ↔ d'.Computes table := by
  have heval (a : Assignment) : d.eval a = d'.eval a := by rw [← eval_shape, h, eval_shape]
  simp only [Computes, heval]

/-- A diagram computes one table only of its size. -/
theorem Computes.cells_eq {d : Diagram ι} {table table' : Table} (h : d.Computes table)
    (h' : d.Computes table') (hinputs : table'.inputs = table.inputs) :
    table.cells = table'.cells := by
  have hlen : table'.cells.length = table.cells.length := by
    rw [table'.length_cells, table.length_cells, hinputs]
  refine List.ext_getElem hlen.symm fun row hrow hrow' => ?_
  have heval := h row _ (List.getElem?_eq_getElem hrow)
  have heval' := h' row _ (List.getElem?_eq_getElem hrow')
  rw [hinputs, heval] at heval'
  exact Except.ok.inj heval'

end Diagram

/-! ## Built diagrams -/

namespace Table

variable {table : Table} {order : List Int}

theorem isReduced_root (horder : order.Perm (inputNumbers table.inputs)) :
    (table.root order).IsReduced := by
  rw [← Diagram.isReduced_shape, shape_root horder]
  exact Tree.isReduced_ofCells order _

/-- Without free cells, only the shape of the built diagram follows the order, makes no needless
    test and computes the table. -/
theorem sameShape_root_iff (hfull : ∀ cell ∈ table.cells, cell.isFree = false)
    (horder : order.Perm (inputNumbers table.inputs)) {d : Node} :
    d.sameShape (table.root order) = true ↔
      d.Follows order ∧ d.IsReduced ∧ d.Computes table := by
  rw [Diagram.sameShape_iff]
  constructor
  · intro hshape
    refine ⟨?_, ?_, (Diagram.computes_congr hshape).mpr (computes_root hfull horder)⟩
    · have hfollows := follows_root horder
      rwa [Diagram.Follows, ← Diagram.routes_shape, ← hshape, Diagram.routes_shape] at hfollows
    · rw [← Diagram.isReduced_shape, hshape, Diagram.isReduced_shape]
      exact isReduced_root horder
  · rintro ⟨hfollows, hreduced, hcomputes⟩
    rw [shape_root horder]
    exact Diagram.shape_eq_ofCells (.of_perm horder)
      (fun _ hlen => isFree_cellAlong hfull horder hlen) hfollows
      (realizes_of_computes hcomputes horder) hreduced

/-- **The built diagram is canonical**: for a table without free cells and an order of its inputs,
    the diagrams that follow the order, make no needless test and compute the table are those of
    the shape of the built one.  So, for one order, built diagrams have one shape only if their
    tables have the same cells. -/
theorem build_canonical (table : Table) (hfull : ∀ cell ∈ table.cells, cell.isFree = false)
    {order : List Int} (horder : order.Perm (inputNumbers table.inputs)) :
    ∃ root, table.build order = .ok root ∧
      (∀ d : Node, d.sameShape root = true ↔
        d.Follows order ∧ d.IsReduced ∧ d.Computes table) ∧
      ∀ table' : Table, table'.inputs = table.inputs →
        (∀ cell ∈ table'.cells, cell.isFree = false) →
        ∃ root', table'.build order = .ok root' ∧
          (root'.sameShape root = true ↔ table'.cells = table.cells) := by
  refine ⟨table.root order, build_eq_root horder, fun d => sameShape_root_iff hfull horder, ?_⟩
  intro table' hinputs hfull'
  have horder' : order.Perm (inputNumbers table'.inputs) := by rwa [hinputs]
  refine ⟨table'.root order, build_eq_root horder', ?_⟩
  have hown := computes_root hfull' horder'
  constructor
  · intro hsame
    obtain ⟨-, -, hcomputes⟩ := (sameShape_root_iff hfull horder).mp hsame
    exact hown.cells_eq hcomputes hinputs.symm
  · intro hcells
    refine (sameShape_root_iff hfull horder).mpr
      ⟨follows_root horder', isReduced_root horder', ?_⟩
    -- Tables of one size with the same cells demand the same.
    intro row cell hcell
    rw [← hcells] at hcell
    rw [← hinputs]
    exact hown row cell hcell

/-- Three inputs of which the second is tested only where the last one is false: a diagram made by
    hand, with numbers of its own, has the shape of the built one. -/
theorem build_canonical_three :
    let table : Table := ⟨3, [.literal "A", .literal "B", .literal "A", .literal "C", .literal "A",
      .literal "B", .literal "A", .literal "B"], rfl⟩
    let d : Node := .branch 9 2 (.leaf 7 (.literal "A")) (.branch 5 1 (.leaf 1 (.literal "B"))
      (.branch 4 0 (.leaf 3 (.literal "C")) (.leaf 1 (.literal "B"))))
    (∀ cell ∈ table.cells, cell.isFree = false) ∧ ([2, 1, 0] : List Int).Perm (inputNumbers 3) ∧
      d.Follows [2, 1, 0] ∧ d.IsReduced ∧ d.Computes table ∧
        ∃ root, table.build [2, 1, 0] = .ok root ∧ d.sameShape root = true := by
  intro table d
  have hfull : ∀ cell ∈ table.cells, cell.isFree = false := by decide
  have hperm : ([2, 1, 0] : List Int).Perm (inputNumbers 3) := by decide
  have hfollows : d.Follows [2, 1, 0] := by
    unfold Diagram.Follows
    decide
  have hreduced : d.IsReduced := by simp [d, Diagram.IsReduced]
  have hcomputes : d.Computes table := by
    intro row cell hcell
    obtain ⟨hlt, hcell⟩ := List.getElem?_eq_some_iff.mp hcell
    subst hcell
    have hrow : row < 8 := hlt
    interval_cases row <;> rfl
  obtain ⟨root, hbuild, hcanonical, -⟩ := build_canonical table hfull hperm
  exact ⟨hfull, hperm, hfollows, hreduced, hcomputes, root, hbuild,
    (hcanonical d).mpr ⟨hfollows, hreduced, hcomputes⟩⟩

end Table

end Dichotomy
