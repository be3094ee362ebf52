import Dichotomy.Proofs.CanonicalForm
import Dichotomy.Proofs.OpeningAnswers

/-!
# Essential inputs

A diagram depends on an input if some answer changes when the input is turned over.  It cannot
depend on what it does not test.  The other way round, a diagram that follows an order and makes no
needless test depends on all inputs that it tests, however deep the test is: two sides of different
shape give different answers somewhere, and no test on the way there asks for the input again.

A table without free cells depends on the same inputs as any diagram that computes it, so the
tested inputs are the same for all orders.

## Main statements

- `Diagram.mem_tests_iff_dependsOn`: the tested inputs are those that a diagram depends on.
- `Table.build_tests_essential`: the same for built diagrams, and for tables without free cells.
-/

namespace Dichotomy

/-! ## Turning inputs over -/

namespace Assignment

/-- The assignment with one input turned over. -/
def flip (a : Assignment) (var : Int) : Assignment := a.update var (!a.value var)

@[simp] theorem length_flip (a : Assignment) (var : Int) : (a.flip var).length = a.length :=
  length_update _ _ _

theorem flip_update_self {a : Assignment} {var : Int} (value : Bool)
    (h : var ∈ inputNumbers a.length) : (a.update var value).flip var = a.update var (!value) := by
  rw [flip, value_update_self value h]
  exact List.set_set _

theorem flip_update_of_ne {a : Assignment} {var other : Int} (value : Bool) (hvar : 0 ≤ var)
    (hother : 0 ≤ other) (hne : other ≠ var) :
    (a.update other value).flip var = (a.flip var).update other value := by
  have hnat : other.toNat ≠ var.toNat := by omega
  rw [flip, flip, value_update_of_ne value hother hvar hne]
  exact List.set_comm _ _ hnat

end Assignment

namespace Diagram

variable {ι : Type}

/-! ## Dependence -/

/-- The answers of a diagram over `n` inputs depend on an input: turning the input over changes
    some answer. -/
def DependsOn (d : Diagram ι) (n : Nat) (var : Int) : Prop :=
  var ∈ inputNumbers n ∧ ∃ (a : Assignment) (cell cell' : Cell), a.length = n ∧
    d.eval a = .ok cell ∧ d.eval (a.flip var) = .ok cell' ∧ cell' ≠ cell

variable {n : Nat} {var : Int} {d : Diagram ι} {order : List Int}

/-- Only tested inputs make a difference. -/
theorem DependsOn.mem_tests (h : d.DependsOn n var) (htests : d.tests ⊆ inputNumbers n) :
    var ∈ d.tests := by
  obtain ⟨hvar, a, cell, cell', rfl, heval, hflip, hne⟩ := h
  by_contra hnot
  rw [Assignment.flip, eval_update _ hvar (fun _ hinput => htests hinput) hnot, heval] at hflip
  exact hne (Except.ok.inj hflip).symm

/-- **Every test is essential**: a diagram that follows an order and makes no needless test gives
    another answer to some assignment once a tested input is turned over. -/
theorem exists_eval_flip_ne (hinputs : DistinctInputs n order) (hfollows : d.Follows order)
    (hreduced : d.IsReduced) (hvar : var ∈ d.tests) :
    ∃ a : Assignment, a.length = n ∧ d.eval (a.flip var) ≠ d.eval a := by
  induction order generalizing d with
  | nil =>
    obtain ⟨mark, cell, rfl⟩ := hfollows.exists_leaf
    exact absurd hvar List.not_mem_nil
  | cons first order ih =>
    rcases hfollows.root_or_rest with ⟨mark, high, low, rfl⟩ | hskips
    · obtain ⟨hhighFollows, hlowFollows⟩ := follows_branch_self.mp hfollows
      obtain ⟨hne, hhighReduced, hlowReduced⟩ := hreduced
      have hfollowsSide (value : Bool) : (cond value high low).Follows order := by
        cases value <;> assumption
      by_cases heq : var = first
      · -- The sides differ, so some assignment is answered in different ways by the two.
        subst heq
        have hdiffer : ¬ ∀ a : Assignment, a.length = n → high.eval a = low.eval a := fun hall =>
          hne (shape_eq_of_eval_eq hinputs.tail hhighFollows hlowFollows hhighReduced hlowReduced
            hall)
        push Not at hdiffer
        obtain ⟨a, rfl, hsides⟩ := hdiffer
        refine ⟨a.update var true, Assignment.length_update _ _ _, ?_⟩
        rw [Assignment.flip_update_self true hinputs.head,
          eval_branch_update (!true) (hfollowsSide (!true)) hinputs,
          eval_branch_update true (hfollowsSide true) hinputs]
        exact hsides.symm
      · -- The side with the test is reached by an input that is not turned over.
        have hside : ∃ value, var ∈ (cond value high low).tests := by
          rcases List.mem_append.mp (List.mem_of_ne_of_mem heq hvar) with hvar | hvar
          · exact ⟨true, hvar⟩
          · exact ⟨false, hvar⟩
        obtain ⟨value, hvarSide⟩ := hside
        obtain ⟨a, rfl, hsides⟩ := ih hinputs.tail (hfollowsSide value)
          (by cases value <;> assumption) hvarSide
        have hvarOrder := (hfollowsSide value).tests_subset hvarSide
        refine ⟨a.update first value, Assignment.length_update _ _ _, ?_⟩
        rw [Assignment.flip_update_of_ne value (hinputs.tail.nonneg hvarOrder)
            (hinputs.nonneg List.mem_cons_self) (Ne.symm heq),
          eval_branch_update value (hfollowsSide value) (by rwa [Assignment.length_flip]),
          eval_branch_update value (hfollowsSide value) hinputs]
        exact hsides
    · exact ih hinputs.tail hskips hreduced hvar

/-- The inputs that are tested are those that the answers depend on, if the tests follow an order
    and none is needless. -/
theorem mem_tests_iff_dependsOn (hinputs : DistinctInputs n order) (hfollows : d.Follows order)
    (hreduced : d.IsReduced) : var ∈ d.tests ↔ d.DependsOn n var := by
  have htests : d.tests ⊆ inputNumbers n := fun x hx => hinputs.mem x (hfollows.tests_subset hx)
  constructor
  · intro hvar
    obtain ⟨a, rfl, hne⟩ := exists_eval_flip_ne hinputs hfollows hreduced hvar
    have hanswer {b : Assignment} (hb : b.length = a.length) : ∃ cell, d.eval b = .ok cell :=
      exists_eval fun x hx => hb ▸ htests hx
    obtain ⟨cell, heval⟩ := hanswer rfl
    obtain ⟨cell', hflip⟩ := hanswer (Assignment.length_flip a var)
    refine ⟨htests hvar, a, cell, cell', rfl, heval, hflip, ?_⟩
    rintro rfl
    exact hne (hflip.trans heval.symm)
  · exact fun h => h.mem_tests htests

/-! ## The tested inputs as a list -/

@[simp] theorem mem_testedInputs : var ∈ d.testedInputs ↔ var ∈ d.tests := by
  rw [testedInputs, List.mem_eraseDups, List.mem_mergeSort]

end Diagram

/-- Without repetitions, an ascending list ascends strictly. -/
theorem pairwise_lt_eraseDups : ∀ {numbers : List Int}, numbers.Pairwise (· ≤ ·) →
    numbers.eraseDups.Pairwise (· < ·)
  | [], _ => .nil
  | first :: rest, h => by
    obtain ⟨hfirst, hrest⟩ := List.pairwise_cons.mp h
    rw [List.eraseDups_cons, List.pairwise_cons]
    constructor
    · intro number hnumber
      obtain ⟨hmem, hne⟩ := List.mem_filter.mp (List.mem_eraseDups.mp hnumber)
      have hle := hfirst number hmem
      have hdiffers : number ≠ first := by simpa using hne
      omega
    · exact pairwise_lt_eraseDups (hrest.filter _)
termination_by numbers => numbers.length
decreasing_by exact Nat.lt_succ_of_le (List.length_filter_le _ rest)

namespace Diagram

variable {ι κ : Type}

theorem pairwise_testedInputs (d : Diagram ι) : d.testedInputs.Pairwise (· < ·) :=
  pairwise_lt_eraseDups (pairwise_mergeSort_le d.tests)

/-- The tested inputs are known from what is tested at all. -/
theorem testedInputs_eq_iff {d : Diagram ι} {d' : Diagram κ} :
    d.testedInputs = d'.testedInputs ↔ ∀ var, var ∈ d.tests ↔ var ∈ d'.tests := by
  constructor
  · intro h var
    rw [← mem_testedInputs, h, mem_testedInputs]
  · intro h
    refine d.pairwise_testedInputs.eq_of_mem_iff d'.pairwise_testedInputs fun var => ?_
    rw [mem_testedInputs, mem_testedInputs, h]

end Diagram

/-! ## Built diagrams -/

namespace Table

/-- The cells of a table depend on an input: turning the input over leads from some row to a row
    with another cell. -/
def DependsOn (table : Table) (var : Int) : Prop :=
  var ∈ inputNumbers table.inputs ∧ ∃ a : Assignment, a.length = table.inputs ∧
    table.cells[(a.flip var).row]? ≠ table.cells[a.row]?

variable {table : Table} {order : List Int} {var : Int}

theorem mem_tests_root_iff (horder : order.Perm (inputNumbers table.inputs)) :
    var ∈ (table.root order).tests ↔ (table.root order).DependsOn table.inputs var :=
  Diagram.mem_tests_iff_dependsOn (.of_perm horder) (follows_root horder) (isReduced_root horder)

/-- A diagram that computes a table depends on the inputs that the table depends on. -/
theorem dependsOn_iff_of_computes {ι : Type} {d : Diagram ι} (h : d.Computes table) :
    d.DependsOn table.inputs var ↔ table.DependsOn var := by
  have heval {a : Assignment} (ha : a.length = table.inputs) :
      d.eval a = .ok (table.cell a.row) ∧ table.cells[a.row]? = some (table.cell a.row) := by
    have hcell := getElem?_cells (Assignment.row_lt_of_length ha)
    have hanswer := h _ _ hcell
    rw [Assignment.ofRow_row_of_length ha] at hanswer
    exact ⟨hanswer, hcell⟩
  refine and_congr_right fun _ => exists_congr fun a => ?_
  -- For either of the two assignments, the answer is the cell of its row.
  constructor
  · rintro ⟨cell, cell', ha, hcell, hcell', hne⟩
    have hflip := heval ((Assignment.length_flip a var).trans ha)
    rw [(heval ha).1, Except.ok.injEq] at hcell
    rw [hflip.1, Except.ok.injEq] at hcell'
    rw [(heval ha).2, hflip.2, hcell, hcell']
    exact ⟨ha, fun heq => hne (Option.some.inj heq)⟩
  · rintro ⟨ha, hne⟩
    have hflip := heval ((Assignment.length_flip a var).trans ha)
    rw [(heval ha).2, hflip.2] at hne
    exact ⟨_, _, ha, (heval ha).1, hflip.1, fun heq => hne (congrArg some heq)⟩

/-- **Only essential inputs are tested**: the diagram built for an order tests exactly the inputs
    that its answers depend on.  Without free cells these are the inputs that the table depends on,
    and so they are the same for all orders. -/
theorem build_tests_essential (table : Table) {order : List Int}
    (horder : order.Perm (inputNumbers table.inputs)) :
    ∃ root, table.build order = .ok root ∧
      (∀ var, var ∈ root.testedInputs ↔ root.DependsOn table.inputs var) ∧
      ((∀ cell ∈ table.cells, cell.isFree = false) →
        (∀ var, var ∈ root.testedInputs ↔ table.DependsOn var) ∧
        ∀ order' : List Int, order'.Perm (inputNumbers table.inputs) →
          ∃ root', table.build order' = .ok root' ∧ root'.testedInputs = root.testedInputs) := by
  refine ⟨table.root order, build_eq_root horder, fun var => ?_, fun hfull => ?_⟩
  · rw [Diagram.mem_testedInputs, mem_tests_root_iff horder]
  · have hdepends {order : List Int} (horder : order.Perm (inputNumbers table.inputs)) (var : Int) :
        var ∈ (table.root order).tests ↔ table.DependsOn var := by
      rw [mem_tests_root_iff horder, dependsOn_iff_of_computes (computes_root hfull horder)]
    refine ⟨fun var => ?_, fun order' horder' => ?_⟩
    · rw [Diagram.mem_testedInputs, hdepends horder]
    · refine ⟨table.root order', build_eq_root horder', ?_⟩
      rw [Diagram.testedInputs_eq_iff]
      intro var
      rw [hdepends horder', hdepends horder]

/-- The first and the last input decide between two cells, and the one between them does not
    matter. -/
theorem build_tests_essential_parity :
    let table : Table := ⟨3, [.literal "A", .literal "B", .literal "A", .literal "B", .literal "B",
      .literal "A", .literal "B", .literal "A"], rfl⟩
    ([1, 2, 0] : List Int).Perm (inputNumbers 3) ∧ ([0, 1, 2] : List Int).Perm (inputNumbers 3) ∧
      (∀ cell ∈ table.cells, cell.isFree = false) ∧
      ∃ root root', table.build [1, 2, 0] = .ok root ∧ table.build [0, 1, 2] = .ok root' ∧
        root'.testedInputs = root.testedInputs ∧ 2 ∈ root.testedInputs ∧
        root.DependsOn 3 2 := by
  intro table
  have horder : ([1, 2, 0] : List Int).Perm (inputNumbers 3) := by decide
  have horder' : ([0, 1, 2] : List Int).Perm (inputNumbers 3) := by decide
  have hfull : ∀ cell ∈ table.cells, cell.isFree = false := by decide
  obtain ⟨root, hbuild, hessential, hsame⟩ := build_tests_essential table horder
  obtain ⟨hdepends, hall⟩ := hsame hfull
  obtain ⟨root', hbuild', heq⟩ := hall _ horder'
  have hlast : 2 ∈ root.testedInputs :=
    (hdepends 2).mpr ⟨by decide, [true, true, true], rfl, by decide⟩
  exact ⟨horder, horder', hfull, root, root', hbuild, hbuild', heq, hlast, (hessential 2).mp hlast⟩

end Table

end Dichotomy
