import Dichotomy.Export.Rendering
import Dichotomy.Proofs.Optimality
import Dichotomy.Proofs.OrderedStores

/-!
# Built diagrams are stored

The diagram of a table consists of nodes of one store and tests inputs of the table only, so it can
be written in every format.

## Main statements

- `Table.exists_isStored_root`: built diagrams are stored.
- `ExportFormat.exists_body_root`: built diagrams have a text in every format.
-/

namespace Dichotomy

/-! ## Texts of built diagrams -/

namespace Table

variable {table : Table} {order : List Int}

/-- A built diagram consists of nodes of one store. -/
theorem exists_isStored_root (horder : order.Perm (inputNumbers table.inputs)) :
    ∃ s, (table.root order).IsStored s := by
  have hbuild := build_eq_root horder
  rw [build, rearranged_eq horder] at hbuild
  exact ⟨_, ((ends_build order 0 _ Store.isOrdered_empty).yields _ hbuild).1⟩

theorem tests_root_subset (horder : order.Perm (inputNumbers table.inputs)) :
    (table.root order).tests ⊆ inputNumbers table.inputs := fun _ hvar =>
  horder.subset ((follows_root horder).tests_subset hvar)

theorem tests_root_nonneg (horder : order.Perm (inputNumbers table.inputs)) {var : Int}
    (h : var ∈ (table.root order).tests) : 0 ≤ var :=
  (mem_inputNumbers.mp (tests_root_subset horder h)).1

end Table

theorem CodeStyle.exists_bodyOf {ι : Type} (style : CodeStyle) (names : Names) {d : Diagram ι}
    (htests : ∀ var ∈ d.tests, 0 ≤ var) : ∃ text, style.bodyOf names d = .ok text := by
  obtain ⟨text, hbody, -⟩ := style.exists_body names 1 (o := d.outline) fun var hvar =>
    htests var (d.inputs_outline_subset hvar)
  exact ⟨text, hbody⟩

/-- Stored diagrams that test inputs only have a text in every format. -/
theorem ExportFormat.exists_body_of_isStored (format : ExportFormat) (name : String)
    (names : List String) {s : Store} {root : Node} (hstored : root.IsStored s)
    (htests : ∀ var ∈ root.tests, 0 ≤ var) : ∃ text, format.body name names root = .ok text := by
  obtain ⟨chart, -, -, hchart, -⟩ := Node.exists_shows (.given names) hstored htests
  cases format with
  | javaScript => exact JavaScript.style.exists_bodyOf (.given names) htests
  | python => exact Python.style.exists_bodyOf (.given names) htests
  | mermaid =>
    rw [body, hchart]
    exact ⟨_, rfl⟩
  | dot =>
    rw [body, hchart]
    exact ⟨_, rfl⟩

/-- Built diagrams have a text in every format. -/
theorem ExportFormat.exists_body_root (format : ExportFormat) (name : String) (names : List String)
    {table : Table} {order : List Int} (horder : order.Perm (inputNumbers table.inputs)) :
    ∃ text, format.body name names (table.root order) = .ok text := by
  obtain ⟨s, hstored⟩ := Table.exists_isStored_root horder
  exact format.exists_body_of_isStored name names hstored fun _ => Table.tests_root_nonneg horder

end Dichotomy
