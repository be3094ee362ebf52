import Dichotomy.Diagram.Chain

/-!
# Merge chains

A decision merges with the one on its high side if both fall back to the same cell.  The chain at a
diagram is what comes of merging for as long as possible: the test of the root joins the chain of
the high side, and the chain stops only where the next decision does not fall back to the cell.

An answer is found by the chain alone.  If all inputs of the condition are true, it is the answer of
the consequence, and if all have a value but not all are true, it is the fallback.  The inputs are
looked up in the order of the tests and no further than to the first one that is not true, so an
assignment that is too short for the condition may still reach the fallback; else the answer is the
fault of an input of the condition.

## Main statements

- `Diagram.chain?_eq_none_iff`: where there is no chain.
- `Diagram.isMergeable_iff`: the decisions that merge with the next.
- `Diagram.runOver_stops`: a chain goes on for as long as it can.
- `Diagram.merge_checks_agree`: one decision at a time and the whole chain.
-/

namespace Dichotomy

/-- Whether an assignment makes all inputs of a condition true. -/
def Assignment.fulfils (a : Assignment) (inputs : List Int) : Bool :=
  inputs.all fun var => entryAt? a var == some true

theorem Assignment.fulfils_eq_true_iff {a : Assignment} {inputs : List Int} :
    a.fulfils inputs = true ↔ ∀ var ∈ inputs, entryAt? a var = some true := by
  simp [fulfils]

theorem atPosition_of_some {α : Type} {xs : List α} {i : Int} {x : α}
    (h : entryAt? xs i = some x) : atPosition xs i = .ok x := by
  rw [atPosition, h]

theorem exists_miss_of_none {α : Type} {xs : List α} {i : Int} (h : entryAt? xs i = none) :
    ∃ miss, atPosition xs i = .error miss := by
  rw [atPosition, h]
  exact ⟨_, rfl⟩

namespace Diagram

variable {ι : Type}

/-! ## The chain at a diagram -/

theorem exists_branch_leaf_of_chain? {d : Diagram ι} {chain : Chain ι}
    (h : d.chain? = some chain) :
    ∃ mark var high, d = branch mark var high (leaf chain.fallbackMark chain.fallback) ∧
      chain.conditions = ascending (var :: (high.runOver chain.fallback).1) ∧
      chain.consequence = (high.runOver chain.fallback).2 := by
  cases d with
  | leaf mark cell => cases h
  | branch mark var high low =>
    cases low with
    | branch => cases h
    | leaf lowMark cell =>
      rw [chain?_branch_leaf] at h
      obtain rfl := Option.some.inj h
      exact ⟨mark, var, high, rfl, rfl, rfl⟩

/-- There is no chain at a leaf and none at a branch over a low branch. -/
theorem chain?_eq_none_iff {d : Diagram ι} :
    d.chain? = none ↔ (∃ mark cell, d = leaf mark cell) ∨
      ∃ mark var high lowMark lowVar lowHigh lowLow,
        d = branch mark var high (branch lowMark lowVar lowHigh lowLow) := by
  cases d with
  | leaf mark cell => simp [chain?]
  | branch mark var high low =>
    cases low with
    | leaf lowMark cell => simp [chain?_branch_leaf]
    | branch lowMark lowVar lowHigh lowLow => simp [chain?]

/-! ## One decision and the next -/

/-- A run has a decision exactly if the diagram begins with a branch that falls back to the cell. -/
theorem runOver_ne_nil_iff {fallback : Cell} {d : Diagram ι} :
    (d.runOver fallback).1 ≠ [] ↔
      ∃ mark var high lowMark, d = branch mark var high (leaf lowMark fallback) := by
  cases d with
  | leaf mark cell => simp [runOver]
  | branch mark var high low =>
    cases low with
    | branch => simp [runOver]
    | leaf lowMark cell =>
      rw [runOver]
      split
      next h => simp [h]
      next h => simp [h]

/-- A decision merges with the next one if that falls back to the same cell. -/
theorem isMergeable_iff {d : Diagram ι} :
    d.isMergeable = true ↔ ∃ mark var highMark highVar highHigh innerMark lowMark cell,
      d = branch mark var (branch highMark highVar highHigh (leaf innerMark cell))
        (leaf lowMark cell) := by
  constructor
  · intro h
    unfold isMergeable at h
    split at h
    next mark var highMark highVar highHigh innerMark inner lowMark outer =>
      obtain rfl := beq_iff_eq.mp h
      exact ⟨mark, var, highMark, highVar, highHigh, innerMark, lowMark, inner, rfl⟩
    next => cases h
  · rintro ⟨mark, var, highMark, highVar, highHigh, innerMark, lowMark, cell, rfl⟩
    simp only [isMergeable, beq_self_eq_true]

/-- Merging with the next decision makes a chain of two inputs at least. -/
theorem isMergeable_iff_length {d : Diagram ι} :
    d.isMergeable = true ↔ ∃ chain, d.chain? = some chain ∧ 2 ≤ chain.conditions.length := by
  rw [isMergeable_iff]
  constructor
  · rintro ⟨mark, var, highMark, highVar, highHigh, innerMark, lowMark, cell, rfl⟩
    refine ⟨_, chain?_branch_leaf .., ?_⟩
    rw [(perm_ascending _).length_eq]
    simp [runOver]
  · rintro ⟨chain, hchain, hlength⟩
    obtain ⟨mark, var, high, rfl, hconditions, -⟩ := exists_branch_leaf_of_chain? hchain
    -- The root gives one input, so the run over the high side gives another.
    rw [hconditions, (perm_ascending _).length_eq, List.length_cons] at hlength
    have hrun : (high.runOver chain.fallback).1 ≠ [] := by
      intro hnil
      rw [hnil] at hlength
      simp at hlength
    obtain ⟨highMark, highVar, highHigh, innerMark, rfl⟩ := runOver_ne_nil_iff.mp hrun
    exact ⟨mark, var, highMark, highVar, highHigh, innerMark, chain.fallbackMark, chain.fallback,
      rfl⟩

/-- The test of a decision that merges joins the chain of the high side. -/
theorem exists_chain_of_isMergeable {d : Diagram ι} (h : d.isMergeable = true) :
    ∃ mark var high low chain rest, d = branch mark var high low ∧ d.chain? = some chain ∧
      high.chain? = some rest ∧ chain.conditions.Perm (var :: rest.conditions) ∧
      chain.consequence = rest.consequence ∧ chain.fallback = rest.fallback := by
  obtain ⟨mark, var, highMark, highVar, highHigh, innerMark, lowMark, cell, rfl⟩ :=
    isMergeable_iff.mp h
  refine ⟨mark, var, _, _, _, _, rfl, chain?_branch_leaf .., chain?_branch_leaf .., ?_, ?_, rfl⟩
  · -- Sorting forgets where the inputs stood, so they are compared as the run met them.
    apply (perm_ascending _).trans
    apply List.Perm.cons
    rw [runOver, if_pos rfl]
    exact (perm_ascending _).symm
  · show (runOver cell (branch highMark highVar highHigh (leaf innerMark cell))).2 = _
    rw [runOver, if_pos rfl]

/-! ## Where a chain stops -/

/-- A run goes on over every decision that falls back to the cell. -/
theorem runOver_stops (fallback : Cell) (d : Diagram ι) (mark : ι) (var : Int) (high : Diagram ι)
    (lowMark : ι) : (d.runOver fallback).2 ≠ branch mark var high (leaf lowMark fallback) := by
  induction d with
  | leaf mark' cell => simp [runOver]
  | branch mark' var' high' low' ihHigh _ =>
    cases low' with
    | branch => simp [runOver]
    | leaf lowMark' cell =>
      rw [runOver]
      split
      next => exact ihHigh
      -- A run that stops over a low leaf has met another cell there.
      next h => simp [h]

/-! ## Answers by chains -/

/-- With all inputs of a run true, the answer is found where the run stops. -/
theorem eval_of_fulfils {fallback : Cell} {d : Diagram ι} {a : Assignment}
    (h : a.fulfils (d.runOver fallback).1 = true) :
    d.eval a = (d.runOver fallback).2.eval a := by
  induction d with
  | leaf mark cell => rfl
  | branch mark var high low ihHigh _ =>
    cases low with
    | branch => rfl
    | leaf lowMark cell =>
      rw [runOver] at h ⊢
      split at h
      next hcell =>
        -- The first input is true, so the answer is that of the high side.
        obtain ⟨hvar, hrest⟩ := List.forall_mem_cons.mp (Assignment.fulfils_eq_true_iff.mp h)
        rw [if_pos hcell, eval, atPosition_of_some hvar]
        exact ihHigh (Assignment.fulfils_eq_true_iff.mpr hrest)
      next hcell => rw [if_neg hcell]

/-- With an input of a run not true, the answer is the fallback, or the fault of an input that has
    no value. -/
theorem eval_of_not_fulfils {fallback : Cell} {d : Diagram ι} {a : Assignment}
    (h : a.fulfils (d.runOver fallback).1 = false) :
    d.eval a = .ok fallback ∨ ∃ var ∈ (d.runOver fallback).1, ∃ miss,
      atPosition a var = .error miss ∧ d.eval a = .error miss := by
  induction d with
  | leaf mark cell => cases h
  | branch mark var high low ihHigh _ =>
    cases low with
    | branch => cases h
    | leaf lowMark cell =>
      rw [runOver] at h ⊢
      split at h
      next hcell =>
        subst hcell
        rw [if_pos rfl, eval]
        -- The first input decides unless it is true.
        cases hvar : entryAt? a var with
        | none =>
          obtain ⟨miss, hmiss⟩ := exists_miss_of_none hvar
          right
          exact ⟨var, List.mem_cons_self, miss, hmiss, by rw [hmiss]⟩
        | some value =>
          rw [atPosition_of_some hvar]
          cases value with
          | false =>
            left
            rfl
          | true =>
            -- It is true, so one of the others is not.
            have hrest : a.fulfils (high.runOver cell).1 = false := by
              simpa [Assignment.fulfils, hvar] using h
            rcases ihHigh hrest with heval | ⟨other, hother, hmiss⟩
            · exact .inl heval
            · exact .inr ⟨other, List.mem_cons_of_mem _ hother, hmiss⟩
      next => cases h

/-- What holds of a run over all inputs of a chain, whose first one is that of the root. -/
theorem runOver_of_chain? {d : Diagram ι} {chain : Chain ι} (h : d.chain? = some chain) :
    chain.conditions.Perm (d.runOver chain.fallback).1 ∧
      chain.consequence = (d.runOver chain.fallback).2 := by
  obtain ⟨mark, var, high, rfl, hconditions, hconsequence⟩ := exists_branch_leaf_of_chain? h
  rw [hconditions, hconsequence, runOver, if_pos rfl]
  exact ⟨perm_ascending _, rfl⟩

/-- An assignment with a value for each input of the condition is answered by the consequence if it
    makes all of them true, and by the fallback if it does not. -/
theorem eval_of_chain? {d : Diagram ι} {chain : Chain ι} (h : d.chain? = some chain)
    {a : Assignment} (hvalues : ∀ var ∈ chain.conditions, entryAt? a var ≠ none) :
    d.eval a =
      if a.fulfils chain.conditions then chain.consequence.eval a else .ok chain.fallback := by
  obtain ⟨hperm, hconsequence⟩ := runOver_of_chain? h
  have hsame : a.fulfils chain.conditions = a.fulfils (d.runOver chain.fallback).1 := hperm.all_eq
  rw [hsame, hconsequence]
  split
  next hall => exact eval_of_fulfils hall
  next hall =>
    rcases eval_of_not_fulfils (Bool.eq_false_iff.mpr hall) with heval | ⟨var, hvar, miss, hmiss, -⟩
    · exact heval
    · -- No input of the condition is without a value.
      obtain ⟨value, hvalue⟩ := Option.ne_none_iff_exists'.mp (hvalues var (hperm.mem_iff.mpr hvar))
      rw [atPosition_of_some hvalue] at hmiss
      cases hmiss

/-- An assignment without a value for some input of the condition reaches the fallback or misses an
    input of the condition. -/
theorem eval_of_chain?_of_none {d : Diagram ι} {chain : Chain ι} (h : d.chain? = some chain)
    {a : Assignment} {var : Int} (hvar : var ∈ chain.conditions) (hnone : entryAt? a var = none) :
    d.eval a = .ok chain.fallback ∨ ∃ other ∈ chain.conditions, ∃ miss,
      atPosition a other = .error miss ∧ d.eval a = .error miss := by
  obtain ⟨hperm, -⟩ := runOver_of_chain? h
  have hfalse : a.fulfils (d.runOver chain.fallback).1 = false := by
    rw [Bool.eq_false_iff]
    intro hall
    have htrue := Assignment.fulfils_eq_true_iff.mp hall var (hperm.mem_iff.mp hvar)
    rw [hnone] at htrue
    cases htrue
  rcases eval_of_not_fulfils hfalse with heval | ⟨other, hother, hmiss⟩
  · exact .inl heval
  · exact .inr ⟨other, hperm.mem_iff.mpr hother, hmiss⟩

/-- **The two checks agree.**  There is a chain at a diagram unless it is a leaf or a branch over a
    low branch.  A decision merges with the next one exactly if the chain has two inputs or more,
    and then its condition is that of the high side's chain with the input of the root sorted in;
    consequence and fallback are those of the high side's chain.  No chain stops before a decision
    that falls back to the same cell.  An assignment that has a value for each input of the condition
    is answered by the consequence if all of them are true, and else by the fallback; one that is too
    short for the condition is answered by the fallback or by the fault of an input of the
    condition. -/
theorem merge_checks_agree (d : Diagram ι) :
    (d.chain? = none ↔ (∃ mark cell, d = leaf mark cell) ∨
      ∃ mark var high lowMark lowVar lowHigh lowLow,
        d = branch mark var high (branch lowMark lowVar lowHigh lowLow)) ∧
    (d.isMergeable = true ↔ ∃ chain, d.chain? = some chain ∧ 2 ≤ chain.conditions.length) ∧
    (d.isMergeable = true → ∃ mark var high low chain rest, d = branch mark var high low ∧
      d.chain? = some chain ∧ high.chain? = some rest ∧
      chain.conditions.Perm (var :: rest.conditions) ∧
      chain.consequence = rest.consequence ∧ chain.fallback = rest.fallback) ∧
    ∀ chain, d.chain? = some chain →
      chain.conditions.Pairwise (· ≤ ·) ∧
      (∃ mark var high, d = branch mark var high (leaf chain.fallbackMark chain.fallback)) ∧
      (∀ mark var high lowMark,
        chain.consequence ≠ branch mark var high (leaf lowMark chain.fallback)) ∧
      ∀ a : Assignment,
        ((∀ var ∈ chain.conditions, entryAt? a var ≠ none) → d.eval a =
          if a.fulfils chain.conditions then chain.consequence.eval a else .ok chain.fallback) ∧
        ∀ var ∈ chain.conditions, entryAt? a var = none →
          d.eval a = .ok chain.fallback ∨ ∃ other ∈ chain.conditions, ∃ miss,
            atPosition a other = .error miss ∧ d.eval a = .error miss := by
  refine ⟨chain?_eq_none_iff, isMergeable_iff_length, exists_chain_of_isMergeable, ?_⟩
  intro chain hchain
  obtain ⟨mark, var, high, hd, hconditions, hconsequence⟩ := exists_branch_leaf_of_chain? hchain
  refine ⟨?_, ⟨mark, var, high, hd⟩, ?_, fun a => ⟨eval_of_chain? hchain, ?_⟩⟩
  · rw [hconditions]
    exact pairwise_ascending _
  · rw [hconsequence]
    exact runOver_stops chain.fallback high
  · intro other hother hnone
    exact eval_of_chain?_of_none hchain hother hnone

/-- Three tests that fall back to the free cell, the last of which asks again for the input of the
    first: two assignments that cover the inputs, and one that ends before input `2`. -/
theorem merge_checks_agree_repeated :
    let d : Tree := branch () 2 (branch () 0 (branch () 2 (leaf () (.literal "A"))
      (leaf () .dontCare)) (leaf () .dontCare)) (leaf () .dontCare)
    d.isMergeable = true ∧ ∃ chain, d.chain? = some chain ∧ chain.conditions = [0, 2, 2] ∧
      (∀ var ∈ chain.conditions, entryAt? [true, false, true] var ≠ none) ∧
      d.eval [true, false, true] = .ok (.literal "A") ∧ d.eval [true, true, false] = .ok .dontCare ∧
      entryAt? [true] 2 = none ∧
      (d.eval [true] = .ok .dontCare ∨ ∃ other ∈ chain.conditions, ∃ miss,
        atPosition [true] other = .error miss ∧ d.eval [true] = .error miss) := by
  intro d
  have hchain : d.chain? = some ⟨[0, 2, 2], leaf () (.literal "A"), (), .dontCare⟩ := rfl
  obtain ⟨-, hmergeable, -, hchains⟩ := merge_checks_agree d
  obtain ⟨-, -, -, hanswers⟩ := hchains _ hchain
  refine ⟨hmergeable.mpr ⟨_, hchain, by decide⟩, _, hchain, rfl, by decide, ?_, ?_, rfl, ?_⟩
  · exact (hanswers [true, false, true]).1 (by decide)
  · exact (hanswers [true, true, false]).1 (by decide)
  · exact (hanswers [true]).2 2 (by decide) rfl

end Diagram

end Dichotomy
