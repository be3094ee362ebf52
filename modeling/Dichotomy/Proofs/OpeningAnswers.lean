import Dichotomy.Proofs.FlowchartParts
import Dichotomy.Proofs.MergeChains

/-!
# Answers by openings

A diagram answers like the first thing it does: it gives its cell, or it goes on with one of the
two sides of its opening, the high one exactly when all inputs of the condition are true.

## Main statements

- `Diagram.eval_eq_opening`: evaluation by openings.
- `Diagram.exists_eval`: an assignment that covers the tested inputs is answered.
-/

namespace Dichotomy

/-- An assignment covers a diagram when it has a value for each tested input. -/
def Assignment.Covers {ι : Type} (a : Assignment) (d : Diagram ι) : Prop :=
  ∀ var ∈ d.tests, var ∈ inputNumbers a.length

namespace Diagram

variable {ι : Type} {a : Assignment}

/-! ## Covered diagrams -/

theorem covers_branch {mark : ι} {var : Int} {high low : Diagram ι} :
    a.Covers (branch mark var high low) ↔
      var ∈ inputNumbers a.length ∧ a.Covers high ∧ a.Covers low := by
  simp only [Assignment.Covers, tests, List.mem_cons, List.mem_append]
  constructor
  · intro h
    exact ⟨h var (.inl rfl), fun v hv => h v (.inr (.inl hv)), fun v hv => h v (.inr (.inr hv))⟩
  · rintro ⟨hvar, hhigh, hlow⟩ v (rfl | hv | hv)
    · exact hvar
    · exact hhigh v hv
    · exact hlow v hv

theorem tests_subset_of_mem_parts {d part : Diagram ι} (h : part ∈ d.parts) :
    part.tests ⊆ d.tests := by
  induction d with
  | leaf mark cell =>
    obtain rfl := List.mem_singleton.mp h
    exact List.Subset.refl _
  | branch mark var high low ihHigh ihLow =>
    rcases List.mem_cons.mp h with rfl | h
    · exact List.Subset.refl _
    · refine List.subset_cons_of_subset _ ?_
      rcases List.mem_append.mp h with h | h
      · exact List.subset_append_of_subset_left _ (ihHigh h)
      · exact List.subset_append_of_subset_right _ (ihLow h)

/-- Parts of a covered diagram are covered. -/
theorem covers_of_mem_parts {d part : Diagram ι} (h : a.Covers d) (hpart : part ∈ d.parts) :
    a.Covers part := fun var hvar =>
  h var (tests_subset_of_mem_parts hpart hvar)

/-- What a covered diagram goes on with is covered, and so is its condition. -/
theorem covers_opening {d : Diagram ι} {inputs : List Int} {high low : Diagram ι}
    (h : d.opening = .ask inputs high low) (hcovers : a.Covers d) :
    (∀ var ∈ inputs, var ∈ inputNumbers a.length) ∧ a.Covers high ∧ a.Covers low := by
  have htests := tests_opening_subset h
  refine ⟨fun var hvar => hcovers var (htests (List.mem_append_left _ hvar)),
    fun var hvar => hcovers var (htests (List.mem_append_right _ ?_)),
    fun var hvar => hcovers var (htests (List.mem_append_right _ ?_))⟩
  · exact List.mem_append_left _ hvar
  · exact List.mem_append_right _ hvar

/-- A condition asks for at least one input. -/
theorem inputs_ne_nil {d : Diagram ι} {inputs : List Int} {high low : Diagram ι}
    (h : d.opening = .ask inputs high low) : inputs ≠ [] := by
  obtain ⟨mark, var, side, lowMark, cell, -, rfl, -, -⟩ |
    ⟨mark, var, lowMark, lowVar, lowHigh, lowLow, -, rfl, -⟩ := opening_cases h
  · intro hnil
    have hlength := (perm_ascending (var :: (side.runOver cell).1)).length_eq
    rw [hnil] at hlength
    cases hlength
  · exact List.cons_ne_nil _ _

/-! ## Evaluation -/

/-- A covered branch goes on with the side that its input chooses. -/
theorem eval_branch {mark : ι} {var : Int} {high low : Diagram ι}
    (h : var ∈ inputNumbers a.length) :
    (branch mark var high low).eval a = if a.value var then high.eval a else low.eval a := by
  rw [eval, Assignment.atPosition_eq h]
  cases a.value var <;> rfl

theorem exists_eval {d : Diagram ι} (hcovers : a.Covers d) : ∃ cell, d.eval a = .ok cell := by
  induction d with
  | leaf mark cell => exact ⟨cell, rfl⟩
  | branch mark var high low ihHigh ihLow =>
    obtain ⟨hvar, hhigh, hlow⟩ := covers_branch.mp hcovers
    rw [eval_branch hvar]
    split
    · exact ihHigh hhigh
    · exact ihLow hlow

/-- A condition on inputs of the assignment is fulfilled if their values are true. -/
theorem fulfils_eq_all {inputs : List Int} (h : ∀ var ∈ inputs, var ∈ inputNumbers a.length) :
    a.fulfils inputs = inputs.all a.value := by
  rw [Assignment.fulfils, Bool.eq_iff_iff, List.all_eq_true, List.all_eq_true]
  apply forall₂_congr
  intro var hvar
  rw [Assignment.entryAt?_eq (h var hvar), beq_iff_eq, Option.some.injEq]

/-- **Evaluation by openings**: a diagram gives the cell it begins with, or what the side gives
    that the condition chooses. -/
theorem eval_eq_opening {d : Diagram ι} (hcovers : a.Covers d) :
    d.eval a =
      match d.opening with
      | .give cell => .ok cell
      | .ask inputs high low => if inputs.all a.value then high.eval a else low.eval a := by
  cases d with
  | leaf mark cell => rfl
  | branch mark var high low =>
    cases hchain : (branch mark var high low).chain? with
    | some chain =>
      have hopening := opening_of_chain? hchain
      have hinputs := (covers_opening hopening hcovers).1
      have hvalues : ∀ input ∈ chain.conditions, entryAt? a input ≠ none := by
        intro input hinput
        rw [Assignment.entryAt?_eq (hinputs input hinput)]
        exact Option.some_ne_none _
      rw [hopening, eval_of_chain? hchain hvalues, fulfils_eq_all hinputs]
      rfl
    | none =>
      rw [eval_branch (covers_branch.mp hcovers).1, opening, hchain]
      simp

theorem eval_of_give {d : Diagram ι} {cell : Cell} (h : d.opening = .give cell)
    (hcovers : a.Covers d) : d.eval a = .ok cell := by
  rw [eval_eq_opening hcovers, h]

theorem eval_of_ask {d : Diagram ι} {inputs : List Int} {high low : Diagram ι}
    (h : d.opening = .ask inputs high low) (hcovers : a.Covers d) :
    d.eval a = if inputs.all a.value then high.eval a else low.eval a := by
  rw [eval_eq_opening hcovers, h]

end Diagram

end Dichotomy
