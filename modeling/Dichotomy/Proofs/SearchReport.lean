import Dichotomy.Proofs.Arrangement
import Dichotomy.Proofs.Reduced
import Dichotomy.Search.Report

/-!
# The report of a search

A search succeeds for every table.  It reports one candidate for each order of the inputs, with the
diagram built for the order and its score, so the least score is that of some order and no order
has a smaller one.

## Main statements

- `Table.search_eq`: the report of a search.
- `Table.exists_leastScore`: what the least score is.
-/

namespace Dichotomy

namespace Table

/-- The diagram built for an order. -/
def root (table : Table) (order : List Int) : Node :=
  (table.build order).toOption.getD default

variable {table : Table} {order : List Int}

theorem build_eq_root (h : order.Perm (inputNumbers table.inputs)) :
    table.build order = .ok (table.root order) := by
  obtain ⟨node, hbuild, -⟩ := table.exists_build h
  rw [root, hbuild]
  rfl

theorem shape_root (h : order.Perm (inputNumbers table.inputs)) :
    (table.root order).shape = Tree.ofCells order (table.cellAlong order) := by
  obtain ⟨node, hbuild, hshape⟩ := table.exists_build h
  obtain rfl : table.root order = node := by
    rw [root, hbuild]
    rfl
  exact hshape

/-- The candidates of a search, by the arrangements of the inputs. -/
def found (table : Table) : List Candidate :=
  ((arrangements table.inputs).zipIdx 1).map fun (order, id) =>
    ⟨id, order, table.root order, (table.root order).score⟩

/-- Every order of the inputs has a candidate. -/
theorem candidates_eq (table : Table) : table.candidates = .ok table.found := by
  refine mapM_eq_ok ?_
  rintro ⟨order, id⟩ hmem
  have horder := List.fst_mem_of_mem_zipIdx hmem
  simp only [candidate, build_eq_root (mem_arrangements.mp horder)]
  rfl

/-- A search succeeds and reports one candidate for each order. -/
theorem search_eq (table : Table) : table.search = .ok ⟨table.inputs, table.found⟩ := by
  rw [search, candidates_eq]
  rfl

/-- The scores of a report are those of the orders. -/
theorem scores_found (table : Table) :
    table.found.map (·.score) =
      (arrangements table.inputs).map fun order => ((table.root order).score : Int) := by
  have horders : ((arrangements table.inputs).zipIdx 1).map Prod.fst = arrangements table.inputs :=
    List.zipIdx_map_fst _ _
  rw [found, List.map_map]
  conv_rhs => rw [← horders, List.map_map]
  rfl

/-- The least score is that of some order, and no order has a smaller one. -/
theorem exists_leastScore (table : Table) :
    ∃ least, Report.leastScore ⟨table.inputs, table.found⟩ = .ok least ∧
      (∃ order : List Int, order.Perm (inputNumbers table.inputs) ∧
        least = (table.root order).score) ∧
      ∀ order : List Int, order.Perm (inputNumbers table.inputs) →
        least ≤ (table.root order).score := by
  have hascending : inputNumbers table.inputs ∈ arrangements table.inputs :=
    mem_arrangements.mpr (.refl _)
  cases hmin : (table.found.map (·.score)).min? with
  | none =>
    -- Even without inputs there is one order, the empty one.
    rw [List.min?_eq_none_iff, scores_found, List.map_eq_nil_iff] at hmin
    rw [hmin] at hascending
    exact absurd hascending List.not_mem_nil
  | some least =>
    obtain ⟨hmem, hleast⟩ := List.min?_eq_some_iff.mp hmin
    rw [scores_found] at hmem hleast
    refine ⟨least, ?_, ?_, ?_⟩
    · simp only [Report.leastScore, hmin]
    · obtain ⟨order, horder, heq⟩ := List.mem_map.mp hmem
      exact ⟨order, mem_arrangements.mp horder, heq.symm⟩
    · intro order horder
      exact hleast _ (List.mem_map.mpr ⟨order, mem_arrangements.mpr horder, rfl⟩)

end Table

end Dichotomy
