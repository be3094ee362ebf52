import Dichotomy.Proofs.OrderedStores

/-!
# Requests to build

A request to build names an order and gives the cells.  All that can be wrong with it is found
before the first node is made, so a request that is refused leaves no trace in the store.  A
request that is granted is carried out to its end: each half of the cells is again as long as the
rest of the order demands, so no level of the order is missing and no half is empty.

Every cell becomes a leaf, also the ones that the diagram does not keep, and a decision over two
halves makes one branch at most.

## Main statements

- `Store.AddsLeaves`: what a store grows by.
- `addsLeaves_build`: what building adds to a store, if it succeeds.
- `buildFault?_eq_some_iff`: what is wrong with a request.
- `build_checked_first`: what becomes of a request.
-/

namespace Dichotomy

namespace Diagram

variable {ι : Type}

/-- The cell of a leaf. -/
def leafCell? : Diagram ι → Option Cell
  | leaf _ cell => some cell
  | branch _ _ _ _ => none

/-- Whether a diagram begins with a test. -/
def isBranch : Diagram ι → Bool
  | leaf _ _ => false
  | branch _ _ _ _ => true

end Diagram

/-! ## What is added -/

namespace Store

/-- A store has grown by leaves for the given cells, in their order, and by fewer branches than
    leaves. -/
def AddsLeaves (s s' : Store) (cells : List Cell) : Prop :=
  ∃ added : List Node, s'.nodes.toList = s.nodes.toList ++ added ∧
    added.filterMap Diagram.leafCell? = cells ∧ added.countP Diagram.isBranch < cells.length

variable {s s₁ s₂ : Store}

theorem addsLeaves_addLeaf (s : Store) (cell : Cell) : s.AddsLeaves (s.addLeaf cell).2 [cell] :=
  ⟨[.leaf s.nodes.size cell], Array.toList_push, rfl, Nat.one_pos⟩

/-- A decision adds one branch or nothing. -/
theorem exists_added_addReduced (s : Store) (var : Int) (high low : Node) :
    ∃ added : List Node, (s.addReduced var high low).2.nodes.toList = s.nodes.toList ++ added ∧
      added.filterMap Diagram.leafCell? = [] ∧ added.countP Diagram.isBranch ≤ 1 := by
  rw [addReduced]
  cases Reduction.of high low with
  | keepHigh => exact ⟨[], (List.append_nil _).symm, rfl, Nat.zero_le 1⟩
  | keepLow => exact ⟨[], (List.append_nil _).symm, rfl, Nat.zero_le 1⟩
  | split => exact ⟨[.branch s.nodes.size var high low], Array.toList_push, rfl, le_refl 1⟩

/-- With fewer branches than leaves in each half there is room for the branch over both. -/
theorem AddsLeaves.addReduced {firsts seconds : List Cell} (hhigh : s.AddsLeaves s₁ firsts)
    (hlow : s₁.AddsLeaves s₂ seconds) (var : Int) (high low : Node) :
    s.AddsLeaves (s₂.addReduced var high low).2 (firsts ++ seconds) := by
  obtain ⟨left, hleft, hleftCells, hleftCount⟩ := hhigh
  obtain ⟨right, hright, hrightCells, hrightCount⟩ := hlow
  obtain ⟨top, htop, htopCells, htopCount⟩ := s₂.exists_added_addReduced var high low
  refine ⟨left ++ right ++ top, ?_, ?_, ?_⟩
  · rw [htop, hright, hleft, List.append_assoc, List.append_assoc, List.append_assoc]
  · rw [List.filterMap_append, List.filterMap_append, hleftCells, hrightCells, htopCells,
      List.append_nil]
  · rw [List.countP_append, List.countP_append, List.length_append]
    omega

end Store

/-- Building adds a leaf for each cell, at whatever level it begins. -/
theorem addsLeaves_build (order : List Int) (level : Int) (cells : List Cell) (s : Store) :
    (build order level cells).Ends s (fun _ => True) fun _ s' => s.AddsLeaves s' cells :=
  ends_build_of (fun _ => True) (fun s cells _ s' => s.AddsLeaves s' cells)
    (fun s cell _ => ⟨trivial, s.addsLeaves_addLeaf cell⟩)
    (fun _ _ _ _ _ var high low _ _ _ hhigh hlow => ⟨trivial, hhigh.addReduced hlow var high low⟩)
    order level cells trivial

/-! ## What is checked -/

/-- The number of cells is looked at first, then the order. -/
theorem buildFault?_eq_some_iff {order : List Int} {cells : List Cell} {fault : Fault} :
    buildFault? order 0 cells = some fault ↔
      (cells.length ≠ rowCount order.length ∧
          fault = .sizeMismatch cells.length order.length) ∨
        (cells.length = rowCount order.length ∧ ¬ order.Perm (inputNumbers order.length) ∧
          fault = .notAnOrder order order.length) := by
  rw [buildFault?, if_pos rfl, ← isOrder_iff_perm]
  by_cases hlen : cells.length = rowCount order.length
  · cases isOrder order.length order <;> simp [hlen, @eq_comm _ fault]
  · simp [hlen, @eq_comm _ fault]

theorem buildFault?_eq_none_iff {order : List Int} {cells : List Cell} :
    buildFault? order 0 cells = none ↔
      cells.length = rowCount order.length ∧ order.Perm (inputNumbers order.length) := by
  rw [buildFault?, if_pos rfl, ← isOrder_iff_perm]
  by_cases hlen : cells.length = rowCount order.length
  · cases isOrder order.length order <;> simp [hlen]
  · simp [hlen]

/-- Nothing is made for a request that is refused. -/
theorem build_of_fault {order : List Int} {level : Int} {cells : List Cell} {fault : Fault}
    (h : buildFault? order level cells = some fault) (s : Store) :
    (build order level cells).run.run s = (.error fault, s) := by
  unfold build
  simp only [h]
  rfl

/-- A request that is granted is carried out. -/
theorem exists_build_addsLeaves {order : List Int} {cells : List Cell}
    (hfault : buildFault? order 0 cells = none) (s : Store) :
    ∃ root s', (build order 0 cells).run.run s = (.ok root, s') ∧ s.AddsLeaves s' cells := by
  -- That there is a diagram is known; what was added on the way holds of every success.
  have hlen := (buildFault?_eq_none_iff.mp hfault).1
  obtain ⟨root, s', hrun, -⟩ : ∃ root s', (build order 0 cells).run.run s = (.ok root, s') ∧ _ :=
    @exists_build [] order cells hlen hfault s
  have hadds := (addsLeaves_build order 0 cells s).yields root
  rw [hrun] at hadds
  exact ⟨root, s', hrun, hadds rfl⟩

/-- So a request to build fails exactly if something is wrong with it. -/
theorem build_eq_error_iff {order : List Int} {cells : List Cell} {s : Store} {fault : Fault} :
    ((build order 0 cells).run.run s).1 = .error fault ↔
      buildFault? order 0 cells = some fault := by
  cases hfault : buildFault? order 0 cells with
  | some found => simp [build_of_fault hfault]
  | none =>
    obtain ⟨root, s', hrun, -⟩ := exists_build_addsLeaves hfault s
    simp [hrun]

/-- A table is not rearranged for a list that is no order of its inputs. -/
theorem rearranged_eq_error {inputs : Nat} {order : List Int}
    (h : ¬ order.Perm (inputNumbers inputs)) (cells : List Cell) :
    rearranged inputs order cells =
      .error ((inputsFault? inputs).getD (.notAnOrder order inputs)) := by
  rw [rearranged, if_neg (isOrder_iff_perm.not.mpr h)]
  cases inputsFault? inputs <;> rfl

/-- **Requests to build**: a request is refused exactly if the cells are not as many as the order
    demands or the order does not name each input once, and then the store stays as it was.  Every
    other request yields a diagram, and the store grows by one leaf for each cell and by fewer
    branches.  A table is built for exactly the orders of its inputs; for any other list the fault
    is that it is none, if the inputs are so few that they can be listed, as those of a table whose
    cells can be held are. -/
theorem build_checked_first (order : List Int) (cells : List Cell) (s : Store) :
    (∀ fault, ((build order 0 cells).run.run s).1 = .error fault ↔
      (cells.length ≠ rowCount order.length ∧
          fault = .sizeMismatch cells.length order.length) ∨
        (cells.length = rowCount order.length ∧ ¬ order.Perm (inputNumbers order.length) ∧
          fault = .notAnOrder order order.length)) ∧
      (∀ fault, ((build order 0 cells).run.run s).1 = .error fault →
        ((build order 0 cells).run.run s).2 = s) ∧
      (cells.length = rowCount order.length → order.Perm (inputNumbers order.length) →
        ∃ root s', (build order 0 cells).run.run s = (.ok root, s') ∧
          ∃ added : List Node, s'.nodes.toList = s.nodes.toList ++ added ∧
            added.filterMap Diagram.leafCell? = cells ∧
            added.countP Diagram.isBranch ≤ rowCount order.length - 1) ∧
      ∀ table : Table,
        ((∃ fault, table.build order = .error fault) ↔ ¬ order.Perm (inputNumbers table.inputs)) ∧
          (table.inputs < 17592186044416 → ∀ fault, table.build order = .error fault →
            fault = .notAnOrder order table.inputs) := by
  refine ⟨fun fault => ?_, fun fault hfault => ?_, fun hlen hperm => ?_, fun table => ?_⟩
  · rw [build_eq_error_iff, buildFault?_eq_some_iff]
  · rw [build_of_fault (build_eq_error_iff.mp hfault)]
  · obtain ⟨root, s', hrun, added, hnodes, hcells, hcount⟩ :=
      exists_build_addsLeaves (buildFault?_eq_none_iff.mpr ⟨hlen, hperm⟩) s
    exact ⟨root, s', hrun, added, hnodes, hcells, by omega⟩
  · by_cases hperm : order.Perm (inputNumbers table.inputs)
    · obtain ⟨root, hroot, -⟩ := Table.exists_build hperm
      simp [hroot, hperm]
    · -- A table is rearranged first, so the order is refused before anything is built.
      have hrefused : table.build order =
          .error ((inputsFault? table.inputs).getD (.notAnOrder order table.inputs)) := by
        rw [Table.build, rearranged_eq_error hperm]
        rfl
      refine ⟨iff_of_true ⟨_, hrefused⟩ hperm, fun hinputs fault hfault => ?_⟩
      -- Fewer inputs than a list can hold can be listed.
      have hfew : inputsFault? table.inputs = none := by
        rw [inputsFault?, if_neg (by omega), if_neg (by omega)]
      rw [hrefused, hfew] at hfault
      exact (Except.error.inj hfault).symm

/-- Over two inputs, four cells are built behind the node that is there already, one of them without
    a demand; the list that names an input twice is refused. -/
theorem build_checked_first_two_inputs :
    (∃ root s', (build [1, 0] 0
          [.literal "A", .dontCare, .literal "A", .literal "B"]).run.run ⟨#[.leaf 0 .dontCare]⟩ =
        (.ok root, s') ∧
      ∃ added : List Node, s'.nodes.toList = .leaf 0 .dontCare :: added ∧
        added.filterMap Diagram.leafCell? =
          [.literal "A", .dontCare, .literal "A", .literal "B"] ∧
        added.countP Diagram.isBranch ≤ 3) ∧
      ((build [1, 1] 0
          [.literal "A", .dontCare, .literal "A", .literal "B"]).run.run
            ⟨#[.leaf 0 .dontCare]⟩).1 = .error (.notAnOrder [1, 1] 2) ∧
      ((build [1, 1] 0
          [.literal "A", .dontCare, .literal "A", .literal "B"]).run.run
            ⟨#[.leaf 0 .dontCare]⟩).2 = ⟨#[.leaf 0 .dontCare]⟩ := by
  have hrefused := ((build_checked_first [1, 1]
    [.literal "A", .dontCare, .literal "A", .literal "B"] ⟨#[.leaf 0 .dontCare]⟩).1
    (.notAnOrder [1, 1] 2)).mpr (.inr ⟨by decide, by decide, rfl⟩)
  exact ⟨(build_checked_first [1, 0] [.literal "A", .dontCare, .literal "A", .literal "B"]
      ⟨#[.leaf 0 .dontCare]⟩).2.2.1 (by decide) (by decide), hrefused,
    (build_checked_first [1, 1] [.literal "A", .dontCare, .literal "A", .literal "B"]
      ⟨#[.leaf 0 .dontCare]⟩).2.1 _ hrefused⟩

end Dichotomy
