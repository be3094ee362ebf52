import Dichotomy.Proofs.OpeningAnswers
import Dichotomy.Proofs.Score

/-!
# Reordered tests

Two tests over one fallback can be swapped: both have to be true to go on.  Trees that differ by
such swaps, wherever they are made, are told apart neither by evaluation nor by the score, and
they have the same outline.  An outline says no more than that, because it unfolds to a tree that
is reached by swaps.

## Main statements

- `Diagram.Reorders.outline_eq`: trees that differ by swaps have one outline.
- `Diagram.reorders_unfold_outline`: an outline unfolds to the tree, up to swaps.
- `Diagram.Reorders.score_eq`, `Diagram.Reorders.eval_eq`: they have one score and one function.
-/

namespace Dichotomy

/-- Lists with the same entries have one ascending list. -/
theorem ascending_eq_of_perm {xs ys : List Int} (h : xs.Perm ys) : ascending xs = ascending ys :=
  ((perm_ascending xs).trans (h.trans (perm_ascending ys).symm)).eq_of_pairwise
    (fun _ _ _ _ => Int.le_antisymm) (pairwise_ascending xs) (pairwise_ascending ys)

/-! ## Outlines without marks -/

namespace Outline

variable {ι : Type}

/-- The outline with its marks forgotten. -/
def shape : Outline ι → Outline Unit
  | give _ cell => give () cell
  | test _ inputs high low => test () inputs high.shape low.shape

theorem shape_guarded (mark : ι) (input : Int) (high low : Outline ι) :
    (guarded mark input high low).shape = guarded () input high.shape low.shape := by
  rcases high with _ | ⟨_, _, _, _ | _⟩ <;> rcases low with _ | _
  case test.give.give => exact apply_ite shape _ _ _
  all_goals rfl

/-- The outline as a tree, with a run of tests over one low side for each condition. -/
def unfold : Outline ι → Tree
  | give _ cell => .leaf () cell
  | test _ inputs high low =>
    inputs.foldr (fun var rest => .branch () var rest low.unfold) high.unfold

end Outline

namespace Diagram

variable {ι : Type}

theorem outline_shape (d : Diagram ι) : d.shape.outline = d.outline.shape := by
  induction d with
  | leaf mark cell => rfl
  | branch mark var high low ihHigh ihLow =>
    rw [shape_branch, outline, outline, Outline.shape_guarded, ihHigh, ihLow]

/-! ## Swaps -/

/-- Trees that differ in the order of tests over one fallback: the least congruence that swaps two
    neighbouring ones. -/
inductive Reorders : Tree → Tree → Prop where
  | refl (t : Tree) : Reorders t t
  | symm {t t' : Tree} : Reorders t t' → Reorders t' t
  | trans {t t' t'' : Tree} : Reorders t t' → Reorders t' t'' → Reorders t t''
  | branch (var : Int) {high high' low low' : Tree} : Reorders high high' → Reorders low low' →
      Reorders (.branch () var high low) (.branch () var high' low')
  | swap (first second : Int) (high : Tree) (fallback : Cell) :
      Reorders
        (.branch () first (.branch () second high (.leaf () fallback)) (.leaf () fallback))
        (.branch () second (.branch () first high (.leaf () fallback)) (.leaf () fallback))

namespace Reorders

variable {t t' : Tree}

/-- Swapped tests end up in one condition, where they stand in ascending order. -/
theorem outline_eq (h : t.Reorders t') : t.outline = t'.outline := by
  induction h with
  | refl t => rfl
  | symm _ ih => exact ih.symm
  | trans _ _ ih ih' => exact ih.trans ih'
  | branch var _ _ ihHigh ihLow => rw [outline, outline, ihHigh, ihLow]
  | swap first second high fallback =>
    -- The run goes on over the second test, so both inputs are sorted into one list.
    have hsort := ascending_eq_of_perm (.swap second first (high.runOver fallback).1)
    simp [outline_branch_leaf, runOver, hsort]

/-- The same inputs are tested. -/
theorem perm_tests (h : t.Reorders t') : t.tests.Perm t'.tests := by
  induction h with
  | refl t => exact .refl _
  | symm _ ih => exact ih.symm
  | trans _ _ ih ih' => exact ih.trans ih'
  | branch var _ _ ihHigh ihLow => exact (ihHigh.append ihLow).cons var
  | swap first second high fallback =>
    simp only [tests, List.append_nil]
    exact .swap second first high.tests

theorem covers (h : t.Reorders t') {a : Assignment} (hcovers : a.Covers t) : a.Covers t' :=
  fun var hvar => hcovers var (h.perm_tests.mem_iff.mpr hvar)

/-- **One score**: swaps change nothing about the score. -/
theorem score_eq (h : t.Reorders t') : t.score = t'.score := by
  rw [← results_outline, h.outline_eq, results_outline]

/-- **One function**: swaps change nothing about the answers. -/
theorem eval_eq (h : t.Reorders t') {a : Assignment} (hcovers : a.Covers t) :
    t.eval a = t'.eval a := by
  induction h with
  | refl t => rfl
  | symm hreorders ih => exact (ih (hreorders.symm.covers hcovers)).symm
  | trans hreorders _ ih ih' => exact (ih hcovers).trans (ih' (hreorders.covers hcovers))
  | branch var _ _ ihHigh ihLow =>
    obtain ⟨hvar, hhigh, hlow⟩ := covers_branch.mp hcovers
    rw [eval_branch hvar, eval_branch hvar, ihHigh hhigh, ihLow hlow]
  | swap first second high fallback =>
    obtain ⟨hfirst, hhigh, -⟩ := covers_branch.mp hcovers
    obtain ⟨hsecond, -, -⟩ := covers_branch.mp hhigh
    -- Both inputs have to be true to go on, in either order.
    rw [eval_branch hfirst, eval_branch hsecond, eval_branch hsecond, eval_branch hfirst]
    cases a.value first <;> cases a.value second <;> rfl

/-- A run of tests over a leaf can be brought into any order. -/
theorem run_perm {inputs inputs' : List Int} (h : inputs.Perm inputs') (fallback : Cell)
    (stop : Tree) :
    Reorders (inputs.foldr (fun var rest => .branch () var rest (.leaf () fallback)) stop)
      (inputs'.foldr (fun var rest => .branch () var rest (.leaf () fallback)) stop) := by
  induction h with
  | nil => exact .refl _
  | cons var _ ih => exact .branch var ih (.refl _)
  | swap first second inputs => exact .swap second first _ fallback
  | trans _ _ ih ih' => exact ih.trans ih'

end Reorders

/-! ## Unfolding -/

/-- A test in front of an outline unfolds to a branch, up to its place in the condition. -/
theorem reorders_unfold_guarded (mark : ι) (input : Int) (high low : Outline ι) :
    Reorders (.branch () input high.unfold low.unfold)
      (Outline.guarded mark input high low).unfold := by
  unfold Outline.guarded
  split
  next highMark inputs high innerMark inner outerMark outer =>
    split
    next h =>
      -- The input is put among those of the condition that it joins.
      subst h
      exact .run_perm (perm_insertAscending input inputs).symm inner high.unfold
    next => exact .refl _
  next => exact .refl _

/-- **Unfolding**: an outline tells its diagram up to the order of tests over one fallback. -/
theorem reorders_unfold_outline (d : Diagram ι) : Reorders d.shape d.outline.unfold := by
  induction d with
  | leaf mark cell => exact .refl _
  | branch mark var high low ihHigh ihLow =>
    exact (Reorders.branch var ihHigh ihLow).trans (reorders_unfold_guarded mark var _ _)

end Diagram

end Dichotomy
