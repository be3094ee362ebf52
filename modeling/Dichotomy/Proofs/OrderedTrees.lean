import Dichotomy.Proofs.Reduced

/-!
# Trees that follow an order

A diagram follows an order when it tests inputs on every path in the sequence of the order, where
inputs may be left out.  Such a diagram need not be reduced.  If its answers are given by the
values along the order, then a first test of the order either is the root, and each side goes on
with the rest, or it is not made at all, and then it makes no difference.

## Main statements

- `Tree.follows_ofCells`: reduced trees follow their order.
- `Realizes.high`, `Realizes.low`: the sides of a test realize what is left of the cells.
- `Realizes.cells_eq`, `Realizes.skip`: what is not tested makes no difference.
-/

namespace Dichotomy

namespace Diagram

variable {ι : Type}

/-! ## Routes -/

/-- The inputs tested on each path, high sides first. -/
def routes : Diagram ι → List (List Int)
  | leaf _ _ => [[]]
  | branch _ var high low => (high.routes ++ low.routes).map (var :: ·)

/-- Every path tests inputs in the sequence of an order. -/
def Follows (d : Diagram ι) (order : List Int) : Prop := ∀ route ∈ d.routes, route.Sublist order

theorem routes_shape (d : Diagram ι) : d.shape.routes = d.routes := by
  induction d with
  | leaf mark cell => rfl
  | branch mark var high low ihHigh ihLow => rw [shape_branch, routes, routes, ihHigh, ihLow]

theorem routes_ne_nil (d : Diagram ι) : d.routes ≠ [] := by
  induction d with
  | leaf mark cell => exact List.cons_ne_nil _ _
  | branch mark var high low ihHigh _ => simp [routes, ihHigh]

theorem follows_leaf (mark : ι) (cell : Cell) (order : List Int) :
    (leaf mark cell).Follows order := by
  intro route hroute
  rw [List.mem_singleton.mp hroute]
  exact List.nil_sublist order

variable {mark : ι} {var : Int} {high low : Diagram ι} {order : List Int}

theorem follows_branch_iff :
    (branch mark var high low).Follows order ↔
      ∀ route ∈ high.routes ++ low.routes, (var :: route).Sublist order := by
  simp only [Follows, routes, List.mem_map, forall_exists_index, and_imp,
    forall_apply_eq_imp_iff₂]

/-- The sides of a test go on with the rest of the order. -/
theorem follows_branch_self :
    (branch mark var high low).Follows (var :: order) ↔
      high.Follows order ∧ low.Follows order := by
  rw [follows_branch_iff]
  simp only [List.cons_sublist_cons, List.mem_append]
  constructor
  · intro h
    exact ⟨fun route hroute => h route (.inl hroute), fun route hroute => h route (.inr hroute)⟩
  · rintro ⟨hhigh, hlow⟩ route (hroute | hroute)
    · exact hhigh route hroute
    · exact hlow route hroute

/-- A diagram whose root tests something else follows the rest of the order. -/
theorem Follows.of_ne {other : Int} (h : (branch mark var high low).Follows (other :: order))
    (hne : var ≠ other) : (branch mark var high low).Follows order := by
  rw [follows_branch_iff] at h ⊢
  intro route hroute
  exact (h route hroute).of_cons_of_ne hne

/-- Either the root tests the first input of the order, or nothing does. -/
theorem Follows.root_or_rest {d : Diagram ι} (h : d.Follows (var :: order)) :
    (∃ mark high low, d = branch mark var high low) ∨ d.Follows order := by
  cases d with
  | leaf mark cell => exact .inr (follows_leaf mark cell order)
  | branch mark other high low =>
    by_cases heq : other = var
    · subst heq
      exact .inl ⟨mark, high, low, rfl⟩
    · exact .inr (h.of_ne heq)

theorem Follows.cons {d : Diagram ι} (h : d.Follows order) (var : Int) :
    d.Follows (var :: order) := fun route hroute => (h route hroute).cons var

theorem Follows.tests_subset {d : Diagram ι} (h : d.Follows order) : d.tests ⊆ order := by
  induction d with
  | leaf mark cell => exact List.nil_subset order
  | branch mark var high low ihHigh ihLow =>
    rw [follows_branch_iff] at h
    intro input hinput
    rcases List.mem_cons.mp hinput with rfl | hinput
    · -- The root is on every route, and there is one.
      obtain ⟨route, hroute⟩ := List.exists_mem_of_ne_nil _ high.routes_ne_nil
      exact (h route (List.mem_append_left _ hroute)).subset List.mem_cons_self
    · have htail {route : List Int} (hroute : route ∈ high.routes ++ low.routes) :
          route.Sublist order := (List.sublist_cons_self _ _).trans (h route hroute)
      rcases List.mem_append.mp hinput with hinput | hinput
      · exact ihHigh (fun route hroute => htail (List.mem_append_left _ hroute)) hinput
      · exact ihLow (fun route hroute => htail (List.mem_append_right _ hroute)) hinput

/-- Nothing can be tested along an empty order. -/
theorem Follows.exists_leaf {d : Diagram ι} (h : d.Follows []) :
    ∃ mark cell, d = leaf mark cell := by
  cases d with
  | leaf mark cell => exact ⟨mark, cell, rfl⟩
  | branch mark var high low => exact absurd (h.tests_subset List.mem_cons_self) List.not_mem_nil

theorem follows_reducedBranch (hhigh : high.Follows order) (hlow : low.Follows order) :
    (reducedBranch mark var high low).Follows (var :: order) := by
  rw [reducedBranch]
  -- A test that is left out leaves its input out of the order.
  cases Reduction.of high low with
  | keepHigh => exact hhigh.cons var
  | keepLow => exact hlow.cons var
  | split => exact follows_branch_self.mpr ⟨hhigh, hlow⟩

end Diagram

/-- Reduced trees follow their order. -/
theorem Tree.follows_ofCells (order : List Int) (cells : List Bool → Cell) :
    (Tree.ofCells order cells).Follows order := by
  induction order generalizing cells with
  | nil => exact Diagram.follows_leaf _ _ _
  | cons var order ih => exact Diagram.follows_reducedBranch (ih _) (ih _)

namespace Diagram

variable {ι : Type}

/-! ## Changing an input that is not tested -/

theorem eval_update {d : Diagram ι} {a : Assignment} {var : Int} (value : Bool)
    (hvar : var ∈ inputNumbers a.length) (htests : ∀ input ∈ d.tests, input ∈ inputNumbers a.length)
    (hnot : var ∉ d.tests) : d.eval (a.update var value) = d.eval a := by
  induction d with
  | leaf mark cell => rfl
  | branch mark input high low ihHigh ihLow =>
    rw [tests, List.mem_cons, not_or, List.mem_append, not_or] at hnot
    have hinput := htests input List.mem_cons_self
    have hinput' : input ∈ inputNumbers (a.update var value).length := by
      rwa [Assignment.length_update]
    have hhigh := ihHigh (fun x hx => htests x (by simp [tests, hx])) hnot.2.1
    have hlow := ihLow (fun x hx => htests x (by simp [tests, hx])) hnot.2.2
    rw [eval, eval, Assignment.atPosition_eq hinput', Assignment.atPosition_eq hinput,
      Assignment.value_update_of_ne value (mem_inputNumbers.mp hvar).1
        (mem_inputNumbers.mp hinput).1 hnot.1, hhigh, hlow]

/-- A diagram that follows the rest of an order does not see the first input. -/
theorem Follows.eval_update {d : Diagram ι} {a : Assignment} {var : Int} {order : List Int}
    (h : d.Follows order) (value : Bool) (hinputs : DistinctInputs a.length (var :: order)) :
    d.eval (a.update var value) = d.eval a := by
  refine Diagram.eval_update value hinputs.head ?_ ?_
  · intro input hinput
    exact hinputs.tail.mem input (h.tests_subset hinput)
  · intro hmem
    exact hinputs.notMem (h.tests_subset hmem)

/-- Once the input of a test has a value, the test goes on to the side that belongs to it. -/
theorem eval_branch_update {mark : ι} {high low : Diagram ι} {a : Assignment} {var : Int}
    {order : List Int} (value : Bool) (hside : (cond value high low).Follows order)
    (hinputs : DistinctInputs a.length (var :: order)) :
    (branch mark var high low).eval (a.update var value) = (cond value high low).eval a := by
  have hvar : var ∈ inputNumbers (a.update var value).length := by
    rw [Assignment.length_update]
    exact hinputs.head
  have hchosen : (branch mark var high low).eval (a.update var value) =
      (cond value high low).eval (a.update var value) := by
    rw [eval, Assignment.atPosition_eq hvar, Assignment.value_update_self value hinputs.head]
    cases value <;> rfl
  rw [hchosen, hside.eval_update value hinputs]

/-! ## Answers along an order -/

/-- The answers of a diagram are given by the values along an order. -/
def Realizes (d : Diagram ι) (n : Nat) (order : List Int) (cells : List Bool → Cell) : Prop :=
  ∀ a : Assignment, a.length = n → d.eval a = .ok (cells (a.along order))

namespace Realizes

variable {n : Nat} {mark : ι} {var : Int} {high low d : Diagram ι} {order : List Int}
  {cells : List Bool → Cell}

/-- A diagram that leaves the first input out answers alike for both of its values. -/
private theorem eval_eq (h : d.Realizes n (var :: order) cells) (hfollows : d.Follows order)
    (hinputs : DistinctInputs n (var :: order)) (value : Bool) {a : Assignment}
    (ha : a.length = n) : d.eval a = .ok (cells (value :: a.along order)) := by
  subst ha
  have hupdate := hfollows.eval_update value hinputs
  rw [← hupdate, h _ (Assignment.length_update _ _ _), Assignment.along_update_cons value hinputs]

/-- An input that is not tested makes no difference. -/
theorem cells_eq (h : d.Realizes n (var :: order) cells) (hfollows : d.Follows order)
    (hinputs : DistinctInputs n (var :: order)) {values : List Bool}
    (hlen : values.length = order.length) : cells (true :: values) = cells (false :: values) := by
  obtain ⟨a, ha, rfl⟩ := Assignment.exists_along hinputs.tail hlen
  -- One assignment is answered in the same way for both values of the input.
  have htrue := h.eval_eq hfollows hinputs true ha
  have hfalse := h.eval_eq hfollows hinputs false ha
  exact Except.ok.inj (htrue.symm.trans hfalse)

theorem skip (h : d.Realizes n (var :: order) cells) (hfollows : d.Follows order)
    (hinputs : DistinctInputs n (var :: order)) (value : Bool) :
    d.Realizes n order fun values => cells (value :: values) :=
  fun _ ha => h.eval_eq hfollows hinputs value ha

/-- The sides of a test realize what is left of the cells. -/
theorem side (h : (branch mark var high low).Realizes n (var :: order) cells)
    (hfollows : (branch mark var high low).Follows (var :: order))
    (hinputs : DistinctInputs n (var :: order)) (value : Bool) :
    (cond value high low).Realizes n order fun values => cells (value :: values) := by
  intro a ha
  subst ha
  have hfollowsSide : (cond value high low).Follows order := by
    obtain ⟨hhigh, hlow⟩ := follows_branch_self.mp hfollows
    cases value
    · exact hlow
    · exact hhigh
  rw [← eval_branch_update value hfollowsSide hinputs, h _ (Assignment.length_update _ _ _),
    Assignment.along_update_cons value hinputs]

end Realizes

end Diagram

end Dichotomy
