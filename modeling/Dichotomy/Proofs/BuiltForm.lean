import Dichotomy.Proofs.Fillings
import Dichotomy.Proofs.OrderAction

/-!
# The form of a built diagram

Whatever the cells of a table are, a diagram built for an order tests inputs in the sequence of the
order, makes no needless test, and gives nothing but cells of the table.  A free leaf gives way to
its neighbour, so the free cell is left only where nothing else was there from the beginning, and
then there is no test at all.

## Main statements

- `Tree.exists_of_mem_cells_ofCells`: where the cells of a reduced tree come from.
- `Table.isFree_root_iff`: when a built diagram is a free leaf.
- `Table.isWellBuilt_build`: the form of built diagrams.
-/

namespace Dichotomy

namespace Diagram

variable {ι : Type}

theorem cells_shape (d : Diagram ι) : d.shape.cells = d.cells := by
  induction d with
  | leaf mark cell => rfl
  | branch mark var high low ihHigh ihLow => rw [shape_branch, cells, cells, ihHigh, ihLow]

theorem exists_leaf_of_isFree {d : Diagram ι} (h : d.isFree = true) :
    ∃ mark, d = leaf mark .dontCare := by
  cases d with
  | leaf mark cell =>
    cases cell with
    | literal text => cases h
    | dontCare => exact ⟨mark, rfl⟩
  | branch => cases h

/-- The form of a diagram that has been built for an order of a table's inputs. -/
structure IsWellBuilt (d : Diagram ι) (table : Table) (order : List Int) : Prop where
  /-- The inputs on each path are a part of the order. -/
  follows : d.Follows order
  /-- No path tests an input twice. -/
  once : ∀ route ∈ d.routes, route.Nodup
  /-- No test has two equal sides. -/
  reduced : d.IsReduced
  /-- The cells are cells of the table. -/
  cells : d.cells ⊆ table.cells
  /-- There is a free leaf only if the table demands nothing. -/
  free_iff : .dontCare ∈ d.cells ↔ ∀ cell ∈ table.cells, cell = .dontCare
  /-- Then it is all there is. -/
  free : (∀ cell ∈ table.cells, cell = .dontCare) → ∃ mark, d = leaf mark .dontCare

end Diagram

/-- The cells of a reduced tree are cells along the order. -/
theorem Tree.exists_of_mem_cells_ofCells {order : List Int} {cells : List Bool → Cell} {cell : Cell}
    (h : cell ∈ (Tree.ofCells order cells).cells) :
    ∃ values, values.length = order.length ∧ cells values = cell := by
  induction order generalizing cells with
  | nil => exact ⟨[], rfl, (List.mem_singleton.mp h).symm⟩
  | cons var order ih =>
    have hside (value : Bool)
        (hcell : cell ∈ (Tree.ofCells order fun values => cells (value :: values)).cells) :
        ∃ values, values.length = (var :: order).length ∧ cells values = cell := by
      obtain ⟨values, hlen, heq⟩ := ih hcell
      exact ⟨value :: values, congrArg Nat.succ hlen, heq⟩
    -- Each leaf is a leaf of one of the sides, whatever becomes of the decision.
    rw [ofCells] at h
    rcases Diagram.reducedBranch_cases () var (Tree.ofCells order fun values => cells (true :: values))
        (Tree.ofCells order fun values => cells (false :: values)) with
      ⟨-, heq⟩ | ⟨-, heq⟩ | ⟨-, heq⟩ | ⟨-, -, -, heq⟩
    · exact hside false (heq ▸ h)
    · exact hside true (heq ▸ h)
    · exact hside true (heq ▸ h)
    · rw [heq] at h
      rcases List.mem_append.mp h with h | h
      · exact hside true h
      · exact hside false h

namespace Table

variable {table : Table} {order : List Int}

/-- The cells along an order are the cells of the table. -/
theorem mem_cells_iff (horder : order.Perm (inputNumbers table.inputs)) {cell : Cell} :
    cell ∈ table.cells ↔
      ∃ values, values.length = order.length ∧ table.cellAlong order values = cell := by
  rw [← (perm_map_cellAlong horder).mem_iff, List.mem_map, length_of_perm_inputNumbers horder]
  simp only [Assignment.mem_all]

theorem cells_root_subset (horder : order.Perm (inputNumbers table.inputs)) :
    (table.root order).cells ⊆ table.cells := by
  intro cell hcell
  rw [← Diagram.cells_shape, shape_root horder] at hcell
  exact (mem_cells_iff horder).mpr (Tree.exists_of_mem_cells_ofCells hcell)

/-- A built diagram is a free leaf exactly if the table demands nothing. -/
theorem isFree_root_iff (horder : order.Perm (inputNumbers table.inputs)) :
    (table.root order).isFree = true ↔ ∀ cell ∈ table.cells, cell = .dontCare := by
  have hfree {cell : Cell} : cell.isFree = true ↔ cell = .dontCare := by
    cases cell <;> simp [Cell.isFree]
  rw [← Reduction.isFree_shape, shape_root horder, Tree.isFree_ofCells]
  constructor
  · intro h cell hcell
    obtain ⟨values, hlen, rfl⟩ := (mem_cells_iff horder).mp hcell
    exact hfree.mp (h values hlen)
  · intro h values hlen
    exact hfree.mpr (h _ ((mem_cells_iff horder).mpr ⟨values, hlen, rfl⟩))

/-- There is no other diagram with a free leaf. -/
theorem dontCare_mem_cells_root_iff (horder : order.Perm (inputNumbers table.inputs)) :
    .dontCare ∈ (table.root order).cells ↔ ∀ cell ∈ table.cells, cell = .dontCare := by
  rw [← isFree_root_iff horder]
  constructor
  · intro hmem
    rw [← Diagram.cells_shape, shape_root horder] at hmem
    rw [← Reduction.isFree_shape, shape_root horder]
    refine (Tree.isFree_or_cells_ofCells order _).resolve_right fun hdemand => ?_
    have hliteral := hdemand _ hmem
    cases hliteral
  · intro hfree
    obtain ⟨mark, hleaf⟩ := Diagram.exists_leaf_of_isFree hfree
    rw [hleaf]
    exact List.mem_singleton.mpr rfl

/-- **The form of built diagrams**: for every table and every order of its inputs, a diagram is
    built whose paths test inputs in the sequence of the order, none of them twice, in which no test
    has two equal sides and every cell is one of the table, and which has a free leaf only if the
    table demands nothing, and then is that leaf. -/
theorem isWellBuilt_build (table : Table) {order : List Int}
    (horder : order.Perm (inputNumbers table.inputs)) :
    ∃ root, table.build order = .ok root ∧ root.IsWellBuilt table order := by
  have hfollows := follows_root horder
  have hnodup : order.Nodup := horder.nodup_iff.mpr (nodup_inputNumbers _)
  refine ⟨table.root order, build_eq_root horder, ?_⟩
  exact
    { follows := hfollows
      once := fun route hroute => (hfollows route hroute).nodup hnodup
      reduced := isReduced_root horder
      cells := cells_root_subset horder
      free_iff := dontCare_mem_cells_root_iff horder
      free := fun hall => Diagram.exists_leaf_of_isFree ((isFree_root_iff horder).mpr hall) }

/-- A free half of a table is absorbed, and of the three inputs the first one is not tested. -/
theorem isWellBuilt_build_absorbed :
    let table : Table := ⟨3, [.literal "A", .literal "B", .literal "C", .literal "B", .dontCare,
      .dontCare, .dontCare, .dontCare], rfl⟩
    ([1, 0, 2] : List Int).Perm (inputNumbers 3) ∧
      ∃ root, table.build [1, 0, 2] = .ok root ∧ root.Follows [1, 0, 2] ∧ root.IsReduced ∧
        .dontCare ∉ root.cells := by
  intro table
  have horder : ([1, 0, 2] : List Int).Perm (inputNumbers 3) := by decide
  obtain ⟨root, hbuild, hform⟩ := isWellBuilt_build table horder
  refine ⟨horder, root, hbuild, hform.follows, hform.reduced, fun hmem => ?_⟩
  have hfree := hform.free_iff.mp hmem (.literal "A") List.mem_cons_self
  cases hfree

end Table

end Dichotomy
