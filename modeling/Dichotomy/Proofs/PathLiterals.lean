import Dichotomy.Diagram.Paths
import Dichotomy.Formula.Clause
import Dichotomy.Proofs.Row

/-!
# Paths as conjunctions

The literals of a path all hold for the assignments that take the path, where variable `v + 1`
stands for input `v`.  So an assignment is answered by the path whose literals it makes true.

## Main statements

- `Diagram.eval_of_mem_paths`: an assignment that makes the literals of a path true takes it.
- `Diagram.exists_mem_paths`: every assignment takes some path.
-/

namespace Dichotomy

namespace Valuation

variable {v : Valuation} {a : Assignment} {var : Int}

/-- The variables that stand for inputs have the values of an assignment. -/
def Agrees (v : Valuation) (a : Assignment) : Prop :=
  ∀ var ∈ inputNumbers a.length, v (var + 1).natAbs = a.value var

theorem Agrees.satisfies_input (h : v.Agrees a) (hvar : var ∈ inputNumbers a.length) :
    v.satisfies (var + 1) = a.value var := by
  have hrange := mem_inputNumbers.mp hvar
  rw [satisfies, if_pos (by omega), h var hvar]

theorem Agrees.satisfies_neg_input (h : v.Agrees a) (hvar : var ∈ inputNumbers a.length) :
    v.satisfies (-(var + 1)) = !a.value var := by
  have hrange := mem_inputNumbers.mp hvar
  rw [satisfies, if_neg (by omega), Int.natAbs_neg, h var hvar]

/-- The assignment that a valuation gives to some inputs. -/
def inputs (v : Valuation) (n : Nat) : Assignment := (List.range n).map fun input => v (input + 1)

@[simp] theorem length_inputs (v : Valuation) (n : Nat) : (v.inputs n).length = n := by
  simp [inputs]

theorem agrees_inputs (v : Valuation) (n : Nat) : v.Agrees (v.inputs n) := by
  intro var hvar
  rw [length_inputs] at hvar
  have hrange := mem_inputNumbers.mp hvar
  have hlt : var.toNat < n := by omega
  have habs : (var + 1).natAbs = var.toNat + 1 := by omega
  simp [inputs, Assignment.value, List.getD_eq_getElem?_getD, hlt, habs]

end Valuation

namespace Diagram

variable {ι : Type} {v : Valuation} {a : Assignment}

theorem mem_paths_branch {mark : ι} {var : Int} {high low : Diagram ι} {path : List Int}
    {cell : Cell} :
    (path, cell) ∈ (branch mark var high low).paths ↔
      (∃ rest, (rest, cell) ∈ high.paths ∧ path = (var + 1) :: rest) ∨
        ∃ rest, (rest, cell) ∈ low.paths ∧ path = -(var + 1) :: rest := by
  simp only [paths, List.mem_append, List.mem_map, Prod.mk.injEq, Prod.exists]
  constructor
  · rintro (⟨rest, other, hmem, rfl, rfl⟩ | ⟨rest, other, hmem, rfl, rfl⟩)
    · exact .inl ⟨rest, hmem, rfl⟩
    · exact .inr ⟨rest, hmem, rfl⟩
  · rintro (⟨rest, hmem, rfl⟩ | ⟨rest, hmem, rfl⟩)
    · exact .inl ⟨rest, cell, hmem, rfl, rfl⟩
    · exact .inr ⟨rest, cell, hmem, rfl, rfl⟩

/-- Inputs are counted from one on paths, so no literal is zero. -/
theorem ne_zero_of_mem_paths {d : Diagram ι} (htests : ∀ var ∈ d.tests, 0 ≤ var) {path : List Int}
    {cell : Cell} (hmem : (path, cell) ∈ d.paths) : (0 : Int) ∉ path := by
  induction d generalizing path with
  | leaf mark other =>
    obtain ⟨rfl, -⟩ := Prod.mk.inj (List.mem_singleton.mp hmem)
    exact List.not_mem_nil
  | branch mark var high low ihHigh ihLow =>
    have hvar := htests var List.mem_cons_self
    rcases mem_paths_branch.mp hmem with ⟨rest, hrest, rfl⟩ | ⟨rest, hrest, rfl⟩
    · rw [List.mem_cons, not_or]
      refine ⟨by omega, ihHigh ?_ hrest⟩
      intro input hinput
      exact htests input (by simp [tests, hinput])
    · rw [List.mem_cons, not_or]
      refine ⟨by omega, ihLow ?_ hrest⟩
      intro input hinput
      exact htests input (by simp [tests, hinput])

/-- **A path is taken** by every assignment that makes its literals true. -/
theorem eval_of_mem_paths (hagrees : v.Agrees a) {d : Diagram ι}
    (htests : ∀ var ∈ d.tests, var ∈ inputNumbers a.length) {path : List Int} {cell : Cell}
    (hmem : (path, cell) ∈ d.paths) (hpath : ∀ literal ∈ path, v.satisfies literal = true) :
    d.eval a = .ok cell := by
  induction d generalizing path with
  | leaf mark other =>
    -- The empty path is taken by all.
    obtain ⟨-, rfl⟩ := Prod.mk.inj (List.mem_singleton.mp hmem)
    rfl
  | branch mark var high low ihHigh ihLow =>
    have hvar := htests var List.mem_cons_self
    rw [eval, Assignment.atPosition_eq hvar]
    -- The first literal says which side the path goes on to.
    rcases mem_paths_branch.mp hmem with ⟨rest, hrest, rfl⟩ | ⟨rest, hrest, rfl⟩
    · have hfirst := hpath _ List.mem_cons_self
      rw [hagrees.satisfies_input hvar] at hfirst
      rw [hfirst]
      apply ihHigh _ hrest
      · intro literal hliteral
        exact hpath literal (List.mem_cons_of_mem _ hliteral)
      · intro input hinput
        exact htests input (by simp [tests, hinput])
    · have hfirst := hpath _ List.mem_cons_self
      rw [hagrees.satisfies_neg_input hvar, Bool.not_eq_true'] at hfirst
      rw [hfirst]
      apply ihLow _ hrest
      · intro literal hliteral
        exact hpath literal (List.mem_cons_of_mem _ hliteral)
      · intro input hinput
        exact htests input (by simp [tests, hinput])

/-- Every assignment takes some path. -/
theorem exists_mem_paths {d : Diagram ι} (htests : ∀ var ∈ d.tests, var ∈ inputNumbers a.length) :
    ∃ path cell, (path, cell) ∈ d.paths ∧ d.eval a = .ok cell ∧
      ∀ v : Valuation, v.Agrees a → ∀ literal ∈ path, v.satisfies literal = true := by
  induction d with
  | leaf mark cell =>
    refine ⟨[], cell, List.mem_singleton.mpr rfl, rfl, ?_⟩
    intro v _ literal hliteral
    cases hliteral
  | branch mark var high low ihHigh ihLow =>
    have hvar := htests var List.mem_cons_self
    rw [eval, Assignment.atPosition_eq hvar]
    -- The value of the input chooses the side and the first literal.
    cases hvalue : a.value var with
    | true =>
      obtain ⟨path, cell, hmem, heval, hpath⟩ := ihHigh fun input hinput =>
        htests input (by simp [tests, hinput])
      refine ⟨(var + 1) :: path, cell, mem_paths_branch.mpr (.inl ⟨path, hmem, rfl⟩), heval, ?_⟩
      intro v hagrees literal hliteral
      rcases List.mem_cons.mp hliteral with rfl | hliteral
      · rw [hagrees.satisfies_input hvar, hvalue]
      · exact hpath v hagrees literal hliteral
    | false =>
      obtain ⟨path, cell, hmem, heval, hpath⟩ := ihLow fun input hinput =>
        htests input (by simp [tests, hinput])
      refine ⟨-(var + 1) :: path, cell, mem_paths_branch.mpr (.inr ⟨path, hmem, rfl⟩), heval, ?_⟩
      intro v hagrees literal hliteral
      rcases List.mem_cons.mp hliteral with rfl | hliteral
      · rw [hagrees.satisfies_neg_input hvar, hvalue]
        rfl
      · exact hpath v hagrees literal hliteral

end Diagram

end Dichotomy
