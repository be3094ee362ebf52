import Dichotomy.Proofs.SearchReport
import Dichotomy.Proofs.SwapCounters
import Mathlib.Data.List.Permutation

/-!
# The search is exhaustive

The arrangements of the inputs are as many as there are permutations, and every permutation is
among them, so none comes twice.  A search therefore reports exactly one candidate for each order,
and keeps exactly those that no other order beats.

## Main statements

- `nodup_arrangements`: no order is listed twice.
- `mem_leastScored`: the candidates that are kept.
- `Table.candidates_cover_orders`: the candidates of a search, and which of them are kept.
-/

namespace Dichotomy

/-! ## No order twice -/

/-- All arrangements of a number of places take one swap less than there are permutations. -/
theorem length_swapsOf (m : Nat) : (swapsOf m).length + 1 = m.factorial := by
  induction m with
  | zero => rfl
  | succ m ih =>
    -- Each of the `m` turns is one swap and the swaps of the places before.
    have hturns : ((List.range m).flatMap fun i =>
        (m, if m % 2 = 1 then i else 0) :: swapsOf m).length = m * m.factorial := by
      simp [List.length_flatMap, ih]
    rw [swapsOf, List.length_append, hturns, Nat.factorial_succ, Nat.add_mul, Nat.one_mul]
    omega

theorem length_arrangements (n : Nat) : (arrangements n).length = n.factorial := by
  rw [arrangements, List.length_scanl, Int.toNat_natCast, length_swapsOf]

/-- No order is listed twice: the list holds all permutations and is no longer than theirs. -/
theorem nodup_arrangements (n : Nat) : (arrangements n).Nodup := by
  have hnodup := List.nodup_permutations (inputNumbers n) (nodup_inputNumbers n)
  have hsub : (inputNumbers n).permutations ⊆ arrangements n := by
    intro order horder
    exact mem_arrangements.mpr (List.mem_permutations.mp horder)
  have hlen : (arrangements n).length ≤ (inputNumbers n).permutations.length := by
    rw [length_arrangements, List.length_permutations, length_inputNumbers, Int.toNat_natCast]
  have hperm := (hnodup.subperm hsub).perm_of_length_le hlen
  exact hperm.nodup_iff.mp hnodup

/-! ## The candidates that are kept -/

section Least

variable {candidates : List Candidate}

/-- A candidate is kept if no other one has a smaller score. -/
theorem mem_leastScored {c : Candidate} :
    c ∈ leastScored candidates ↔
      c ∈ candidates ∧ ∀ c' ∈ candidates, c.score ≤ c'.score := by
  rw [leastScored]
  cases hmin : (candidates.map (·.score)).min? with
  | none =>
    rw [List.min?_eq_none_iff, List.map_eq_nil_iff] at hmin
    simp [hmin]
  | some least =>
    obtain ⟨hmem, hleast⟩ := List.min?_eq_some_iff.mp hmin
    simp only [List.mem_filter, beq_iff_eq]
    constructor
    · rintro ⟨hc, rfl⟩
      exact ⟨hc, fun c' hc' => hleast _ (List.mem_map_of_mem hc')⟩
    · rintro ⟨hc, hbound⟩
      obtain ⟨best, hbest, hscore⟩ := List.mem_map.mp hmem
      refine ⟨hc, Int.le_antisymm ?_ (hleast _ (List.mem_map_of_mem hc))⟩
      rw [← hscore]
      exact hbound best hbest

theorem leastScored_sublist (candidates : List Candidate) :
    (leastScored candidates).Sublist candidates := by
  rw [leastScored]
  split
  · exact List.filter_sublist
  · exact List.nil_sublist _

/-- Among some candidates, one is kept. -/
theorem leastScored_ne_nil (h : candidates ≠ []) : leastScored candidates ≠ [] := by
  cases hmin : (candidates.map (·.score)).min? with
  | none =>
    rw [List.min?_eq_none_iff, List.map_eq_nil_iff] at hmin
    exact absurd hmin h
  | some least =>
    obtain ⟨hmem, hleast⟩ := List.min?_eq_some_iff.mp hmin
    obtain ⟨best, hbest, rfl⟩ := List.mem_map.mp hmem
    exact List.ne_nil_of_mem (mem_leastScored.mpr
      ⟨hbest, fun c' hc' => hleast _ (List.mem_map_of_mem hc')⟩)

end Least

/-! ## The candidates of a search -/

namespace Table

variable {table : Table}

theorem orders_found (table : Table) :
    table.found.map (·.order) = arrangements table.inputs := by
  have horders : ((arrangements table.inputs).zipIdx 1).map Prod.fst = arrangements table.inputs :=
    List.zipIdx_map_fst _ _
  conv_rhs => rw [← horders]
  rw [found, List.map_map]
  rfl

theorem ids_found (table : Table) :
    table.found.map (·.id) =
      (List.range' 1 table.inputs.factorial).map fun (id : Nat) => (id : Int) := by
  have hids : ((arrangements table.inputs).zipIdx 1).map Prod.snd =
      List.range' 1 table.inputs.factorial := by
    rw [List.zipIdx_map_snd, length_arrangements]
  rw [← hids, found, List.map_map, List.map_map]
  rfl

theorem eq_root_of_mem_found {c : Candidate} (h : c ∈ table.found) :
    c.order.Perm (inputNumbers table.inputs) ∧ c.root = table.root c.order ∧
      c.score = (table.root c.order).score := by
  obtain ⟨⟨order, id⟩, hmem, rfl⟩ := List.mem_map.mp h
  exact ⟨mem_arrangements.mp (List.fst_mem_of_mem_zipIdx hmem), rfl, rfl⟩

theorem exists_mem_found {order : List Int} (h : order.Perm (inputNumbers table.inputs)) :
    ∃ c ∈ table.found, c.order = order := by
  have horder := mem_arrangements.mpr h
  rw [← orders_found] at horder
  exact List.mem_map.mp horder

/-- An order of the inputs has one candidate only. -/
theorem exists_filter_found {order : List Int} (h : order.Perm (inputNumbers table.inputs)) :
    ∃ c ∈ table.found, c.order = order ∧ table.found.filter (·.order = order) = [c] := by
  obtain ⟨c, hc, rfl⟩ := exists_mem_found h
  have hnodup : (table.found.map (·.order)).Nodup := by
    rw [orders_found]
    exact nodup_arrangements table.inputs
  refine ⟨c, hc, rfl, List.perm_singleton.mp ?_⟩
  refine (List.perm_ext_iff_of_nodup (hnodup.of_map.filter _) (List.nodup_singleton c)).mpr ?_
  intro c'
  rw [List.mem_filter, List.mem_singleton, decide_eq_true_eq]
  constructor
  · rintro ⟨hc', horder⟩
    exact List.inj_on_of_nodup_map hnodup hc' hc horder
  · rintro rfl
    exact ⟨hc, rfl⟩

/-- **The search is exhaustive**: the orders that counting swaps leads through are all
    permutations of the inputs, the ascending one first and none of them twice.  A search numbers
    its candidates by them, one for each order with its diagram and score, and keeps those that no
    order beats, of which there are some, in ascending order of their numbers. -/
theorem candidates_cover_orders (n : Nat) (table : Table) :
    (inputNumbers n :: ordersAfter (inputNumbers n) (List.replicate n 0) 1 = arrangements n ∧
      (arrangements n).head? = some (inputNumbers n) ∧ (arrangements n).Nodup ∧
      (arrangements n).length = n.factorial ∧
      ∀ order : List Int, order ∈ arrangements n ↔ order.Perm (inputNumbers n)) ∧
    ∃ candidates, table.candidates = .ok candidates ∧
      candidates.map (·.order) = arrangements table.inputs ∧
      candidates.map (·.id) =
        (List.range' 1 table.inputs.factorial).map (fun (id : Nat) => (id : Int)) ∧
      (∀ order : List Int, order.Perm (inputNumbers table.inputs) →
        ∃ c, candidates.filter (·.order = order) = [c] ∧ table.build order = .ok c.root ∧
          c.score = c.root.score ∧
          (c ∈ leastScored candidates ↔
            ∀ order' : List Int, order'.Perm (inputNumbers table.inputs) →
              ∃ root', table.build order' = .ok root' ∧ c.root.score ≤ root'.score)) ∧
      leastScored candidates ≠ [] ∧ (leastScored candidates).Sublist candidates ∧
      ((leastScored candidates).map (·.id)).Pairwise (· < ·) := by
  refine ⟨⟨cons_ordersAfter_eq_arrangements n, ?_, nodup_arrangements n, length_arrangements n,
    fun order => mem_arrangements⟩, table.found, table.candidates_eq, table.orders_found,
    table.ids_found, ?_, ?_, leastScored_sublist _, ?_⟩
  · rw [arrangements, List.head?_scanl]
  · intro order horder
    obtain ⟨c, hc, rfl, hfilter⟩ := exists_filter_found horder
    obtain ⟨-, hroot, hscore⟩ := eq_root_of_mem_found hc
    rw [← hroot] at hscore
    refine ⟨c, hfilter, by rw [hroot, build_eq_root horder], hscore, ?_⟩
    rw [mem_leastScored]
    constructor
    · -- Orders and candidates are the same thing, so a bound over one is a bound over the other.
      rintro ⟨-, hbound⟩ order' horder'
      obtain ⟨c', hc', rfl⟩ := exists_mem_found horder'
      obtain ⟨-, hroot', hscore'⟩ := eq_root_of_mem_found hc'
      have hle := hbound c' hc'
      refine ⟨table.root c'.order, build_eq_root horder', ?_⟩
      omega
    · intro hbound
      refine ⟨hc, fun c' hc' => ?_⟩
      obtain ⟨horder', -, hscore'⟩ := eq_root_of_mem_found hc'
      obtain ⟨root', hbuild, hle⟩ := hbound c'.order horder'
      obtain rfl : table.root c'.order = root' :=
        Except.ok.inj ((build_eq_root horder').symm.trans hbuild)
      omega
  · obtain ⟨c, hc, -⟩ := exists_mem_found (.refl (inputNumbers table.inputs))
    exact leastScored_ne_nil (List.ne_nil_of_mem hc)
  · -- The numbers ascend over all candidates, so they do over those that are kept.
    refine List.Pairwise.sublist ((leastScored_sublist _).map _) ?_
    rw [ids_found, List.pairwise_map]
    exact (List.pairwise_lt_range' 1).imp fun h => Int.ofNat_lt.mpr h

/-- Three inputs have six orders, one of which tests the last input first. -/
theorem candidates_cover_orders_three :
    let table : Table := ⟨3, [.literal "A", .literal "B", .dontCare, .literal "C", .literal "A",
      .literal "A", .literal "B", .dontCare], rfl⟩
    ([2, 0, 1] : List Int).Perm (inputNumbers 3) ∧
      ∃ candidates, table.candidates = .ok candidates ∧
        candidates.map (·.id) = [1, 2, 3, 4, 5, 6] ∧
        ∃ c, candidates.filter (·.order = [2, 0, 1]) = [c] ∧
          table.build [2, 0, 1] = .ok c.root := by
  intro table
  have hperm : ([2, 0, 1] : List Int).Perm (inputNumbers 3) := by decide
  obtain ⟨-, candidates, hcandidates, -, hids, horders, -⟩ := candidates_cover_orders 3 table
  obtain ⟨c, hfilter, hbuild, -⟩ := horders [2, 0, 1] hperm
  exact ⟨hperm, candidates, hcandidates, hids, c, hfilter, hbuild⟩

end Table

end Dichotomy
