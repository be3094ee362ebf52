import Dichotomy.Formula.Search
import Mathlib.Data.List.Basic

/-!
# Formulas and solvers

What it means that a formula holds, and what is expected of a solver: it finds a valuation exactly
when there is one.  Literals are non-zero numbers, so a formula is proper when no clause has a zero.
The search by splitting is such a solver.

## Main statements

- `Formula.holds_iff`: a formula holds if some literal of each clause does.
- `Formula.model_of_model?`, `Formula.exists_model?`: the search is sound and complete.
- `Formula.exact_splitSolver`: the search is a solver.
-/

namespace Dichotomy

theorem Valuation.satisfies_neg (v : Valuation) {literal : Int} (h : literal ≠ 0) :
    v.satisfies (-literal) = !v.satisfies literal := by
  unfold satisfies
  by_cases hpos : 0 < literal
  · rw [if_neg (by omega), if_pos hpos, Int.natAbs_neg]
  · rw [if_pos (by omega), if_neg hpos, Int.natAbs_neg, Bool.not_not]

namespace Formula

variable {f g : Formula} {v : Valuation}

theorem holds_iff : f.holds v = true ↔ ∀ clause ∈ f, ∃ literal ∈ clause, v.satisfies literal = true := by
  simp [holds]

/-- No clause has a zero, which is no literal. -/
def Proper (f : Formula) : Prop := ∀ clause ∈ f, (0 : Int) ∉ clause

end Formula

/-- **What is expected of a solver**: a valuation under which the formula holds, if there is one. -/
structure Solver.Exact (solver : Solver) : Prop where
  holds : ∀ (f : Formula) (v : Valuation), f.Proper → solver f = some v → f.holds v = true
  unsatisfiable : ∀ f : Formula, f.Proper → solver f = none → ∀ v, f.holds v = false

namespace Formula

variable {f : Formula} {known : Int → Bool}

/-! ## Taking literals as true -/

theorem mem_rest {clause : Clause} {literal : Int} :
    literal ∈ rest known clause ↔ literal ∈ clause ∧ known (-literal) = false := by
  unfold rest
  split
  next => simp
  next h =>
    -- Nothing is dropped, because nothing is known to be false.
    simp only [List.any_eq_true, not_exists, not_and, Bool.not_eq_true] at h
    constructor
    · intro hmem
      exact ⟨hmem, h literal hmem⟩
    · intro hmem
      exact hmem.1

theorem mem_assume {clause : Clause} :
    clause ∈ assume f known ↔
      ∃ whole ∈ f, (∀ literal ∈ whole, known literal = false) ∧ rest known whole = clause := by
  simp [assume, and_assoc]

/-- What is left mentions nothing that is known. -/
theorem not_known_of_mem_assume {clause : Clause} {literal : Int} (hclause : clause ∈ assume f known)
    (hliteral : literal ∈ clause) : known literal = false ∧ known (-literal) = false := by
  obtain ⟨whole, -, hwhole, rfl⟩ := mem_assume.mp hclause
  obtain ⟨hmem, hneg⟩ := mem_rest.mp hliteral
  exact ⟨hwhole literal hmem, hneg⟩

theorem mem_of_mem_assume {clause : Clause} {literal : Int} (hclause : clause ∈ assume f known)
    (hliteral : literal ∈ clause) : ∃ whole ∈ f, literal ∈ whole := by
  obtain ⟨whole, hwhole, -, rfl⟩ := mem_assume.mp hclause
  exact ⟨whole, hwhole, (mem_rest.mp hliteral).1⟩

theorem Proper.assume (h : f.Proper) : (assume f known).Proper := by
  intro clause hclause hzero
  obtain ⟨whole, hwhole, hmem⟩ := mem_of_mem_assume hclause hzero
  exact h whole hwhole hmem

/-- What is left holds wherever the formula and the literals taken as true hold. -/
theorem holds_assume {v : Valuation} (hproper : f.Proper) (hholds : f.holds v = true)
    (hknown : ∀ clause ∈ f, ∀ literal ∈ clause, known (-literal) = true →
      v.satisfies (-literal) = true) : (assume f known).holds v = true := by
  rw [holds_iff] at hholds ⊢
  intro clause hclause
  obtain ⟨whole, hwhole, -, rfl⟩ := mem_assume.mp hclause
  obtain ⟨literal, hliteral, hsat⟩ := hholds whole hwhole
  refine ⟨literal, mem_rest.mpr ⟨hliteral, ?_⟩, hsat⟩
  rw [Bool.eq_false_iff]
  intro hneg
  -- A literal that holds cannot be known to be false.
  have hfalse := hknown whole hwhole literal hliteral hneg
  have hzero : literal ≠ 0 := fun h => hproper whole hwhole (h ▸ hliteral)
  rw [v.satisfies_neg hzero, hsat] at hfalse
  cases hfalse

/-! ## The literals found -/

/-- Literals that make a formula true: no literal comes with its negation, all of them belong to
    variables of the formula, and every clause has one. -/
structure Model (f : Formula) (literals : List Int) : Prop where
  consistent : ∀ literal ∈ literals, -literal ∉ literals
  occurs : ∀ literal ∈ literals, ∃ clause ∈ f, literal ∈ clause ∨ -literal ∈ clause
  covers : ∀ clause ∈ f, ∃ literal ∈ clause, literal ∈ literals

/-- Literals that are taken as true make up a model together with a model of what is left. -/
theorem Model.append {chosen literals : List Int} (h : Model (assume f known) literals)
    (hchosen : ∀ literal, known literal = true ↔ literal ∈ chosen)
    (hconsistent : ∀ literal ∈ chosen, -literal ∉ chosen)
    (hoccurs : ∀ literal ∈ chosen, ∃ clause ∈ f, literal ∈ clause ∨ -literal ∈ clause) :
    Model f (chosen ++ literals) := by
  have hapart : ∀ literal ∈ literals, literal ∉ chosen ∧ -literal ∉ chosen := by
    intro literal hliteral
    simp only [← hchosen, Bool.not_eq_true]
    obtain ⟨clause, hclause, hmem | hmem⟩ := h.occurs literal hliteral
    · exact not_known_of_mem_assume hclause hmem
    · have hneither := not_known_of_mem_assume hclause hmem
      rw [Int.neg_neg] at hneither
      exact hneither.symm
  constructor
  case consistent =>
    intro literal hliteral hneg
    rcases List.mem_append.mp hliteral with hliteral | hliteral
    · rcases List.mem_append.mp hneg with hneg | hneg
      · exact hconsistent literal hliteral hneg
      · apply (hapart _ hneg).2
        rwa [Int.neg_neg]
    · rcases List.mem_append.mp hneg with hneg | hneg
      · exact (hapart literal hliteral).2 hneg
      · exact h.consistent literal hliteral hneg
  case occurs =>
    intro literal hliteral
    rcases List.mem_append.mp hliteral with hliteral | hliteral
    · exact hoccurs literal hliteral
    · -- What is left is made of parts of the clauses.
      obtain ⟨clause, hclause, hmem | hmem⟩ := h.occurs literal hliteral
      · obtain ⟨whole, hwhole, hmem⟩ := mem_of_mem_assume hclause hmem
        exact ⟨whole, hwhole, .inl hmem⟩
      · obtain ⟨whole, hwhole, hmem⟩ := mem_of_mem_assume hclause hmem
        exact ⟨whole, hwhole, .inr hmem⟩
  case covers =>
    intro clause hclause
    by_cases hany : ∃ literal ∈ clause, known literal = true
    · obtain ⟨literal, hmem, hknown⟩ := hany
      exact ⟨literal, hmem, List.mem_append_left _ ((hchosen literal).mp hknown)⟩
    · -- What is left of the clause has a literal of the other model.
      have hleft : rest known clause ∈ assume f known := by
        refine mem_assume.mpr ⟨clause, hclause, ?_, rfl⟩
        intro literal hmem
        rw [Bool.eq_false_iff]
        intro hknown
        exact hany ⟨literal, hmem, hknown⟩
      obtain ⟨literal, hmem, hliteral⟩ := h.covers _ hleft
      exact ⟨literal, (mem_rest.mp hmem).1, List.mem_append_right _ hliteral⟩

/-- The valuation of a model makes the formula true. -/
theorem Model.holds {literals : List Int} (h : Model f literals) (hproper : f.Proper) :
    f.holds (fun v => literals.contains (v : Int)) = true := by
  rw [holds_iff]
  intro clause hclause
  -- The literal that the model has of a clause is true.
  obtain ⟨literal, hmem, hliteral⟩ := h.covers clause hclause
  have hzero : literal ≠ 0 := fun h => hproper clause hclause (h ▸ hmem)
  refine ⟨literal, hmem, ?_⟩
  unfold Valuation.satisfies
  by_cases hpos : 0 < literal
  · have habs : ((literal.natAbs : Nat) : Int) = literal := by omega
    rw [if_pos hpos]
    simpa [habs] using hliteral
  · have habs : ((literal.natAbs : Nat) : Int) = -literal := by omega
    rw [if_neg hpos]
    simpa [habs] using h.consistent literal hliteral

/-! ## The search by splitting -/

theorem exists_best?_add (tally : Tally) (literal : Int) :
    ∃ best, (tally.add literal).best? = some best := ⟨_, rfl⟩

/-- Counting on keeps a leader once there is one. -/
theorem exists_best?_addClause {tally : Tally} {clause : Clause}
    (h : clause ≠ [] ∨ ∃ best, tally.best? = some best) :
    ∃ best, (tally.addClause clause).best? = some best := by
  unfold Tally.addClause
  induction clause generalizing tally with
  | nil => simpa using h
  | cons literal clause ih => exact ih (.inr (exists_best?_add tally literal))

theorem exists_commonLiteral? {clause : Clause} (hclause : clause ∈ f) (hne : clause ≠ []) :
    ∃ literal, f.commonLiteral? = some literal := by
  have hfold : ∀ (g : Formula) (tally : Tally),
      (clause ∈ g ∨ ∃ best, tally.best? = some best) →
        ∃ best, (g.foldl Tally.addClause tally).best? = some best := by
    intro g
    induction g with
    | nil =>
      intro tally h
      simpa using h
    | cons first g ih =>
      intro tally h
      apply ih
      rcases h with h | h
      · rcases List.mem_cons.mp h with rfl | h
        · exact .inr (exists_best?_addClause (.inl hne))
        · exact .inl h
      · exact .inr (exists_best?_addClause (.inr h))
  exact hfold f Tally.empty (.inl hclause)

theorem contains_ofList {chosen : List Int} {literal : Int} :
    (Std.HashSet.ofList chosen).contains literal = true ↔ literal ∈ chosen := by
  simp

/-- A single literal, taken as true, makes up a model together with a model of what is left. -/
theorem Model.cons {literal : Int} {literals : List Int} (h : Model (assume f (· == literal)) literals)
    (hzero : literal ≠ 0) (hoccurs : ∃ clause ∈ f, literal ∈ clause ∨ -literal ∈ clause) :
    Model f (literal :: literals) := by
  show Model f ([literal] ++ literals)
  apply h.append
  · simp
  · intro other hother
    rw [List.mem_singleton.mp hother, List.mem_singleton]
    omega
  · intro other hother
    rw [List.mem_singleton.mp hother]
    exact hoccurs

/-- The search finds models only. -/
theorem model_of_model? (hproper : f.Proper) {literals : List Int}
    (h : f.model? = some literals) : Model f literals := by
  fun_induction model? f generalizing literals with
  | case1 f hempty => cases h
  | case2 f hempty first others hforced known hclash => cases h
  | case3 f hempty first others hforced known hclash ih =>
    obtain ⟨found, hfound, rfl⟩ := Option.map_eq_some_iff.mp h
    -- No two forced literals exclude each other, or the search would have stopped.
    apply (ih hproper.assume hfound).append fun _ => contains_ofList
    · intro literal hliteral hneg
      apply hclash
      exact List.any_eq_true.mpr ⟨literal, hliteral, contains_ofList.mpr hneg⟩
    · intro literal hliteral
      rw [← hforced] at hliteral
      exact ⟨[literal], singleton_mem_of_mem_forced hliteral, .inl List.mem_cons_self⟩
  | case4 f hempty hforced hcommon =>
    obtain rfl : [] = literals := Option.some.inj h
    -- Without a literal to try there is no clause left.
    constructor
    · simp
    · simp
    · intro clause hclause
      by_cases hne : clause = []
      · exact absurd (List.any_eq_true.mpr ⟨clause, hclause, by simp [hne]⟩) hempty
      · obtain ⟨literal, hliteral⟩ := exists_commonLiteral? hclause hne
        rw [hcommon] at hliteral
        cases hliteral
  | case5 f hempty hforced literal hcommon found hfound ih =>
    obtain rfl : literal :: found = literals := Option.some.inj h
    obtain ⟨clause, hclause, hmem⟩ := mem_of_commonLiteral? hcommon
    have hzero : literal ≠ 0 := fun h => hproper clause hclause (h ▸ hmem)
    exact (ih hproper.assume hfound).cons hzero ⟨clause, hclause, .inl hmem⟩
  | case6 f hempty hforced literal hcommon hnone _ ih =>
    obtain ⟨found, hfound, rfl⟩ := Option.map_eq_some_iff.mp h
    obtain ⟨clause, hclause, hmem⟩ := mem_of_commonLiteral? hcommon
    have hzero : -literal ≠ 0 := fun h => hproper clause hclause (Int.neg_eq_zero.mp h ▸ hmem)
    apply (ih hproper.assume hfound).cons hzero
    exact ⟨clause, hclause, .inr (by rwa [Int.neg_neg])⟩

/-- A clause of one literal leaves no choice. -/
theorem satisfies_of_mem_forced {v : Valuation} (h : f.holds v = true) {literal : Int}
    (hliteral : literal ∈ f.forced) : v.satisfies literal = true := by
  obtain ⟨other, hother, hsat⟩ := holds_iff.mp h _ (singleton_mem_of_mem_forced hliteral)
  rwa [List.mem_singleton.mp hother] at hsat

theorem ne_zero_of_mem_forced (hproper : f.Proper) {literal : Int} (hliteral : literal ∈ f.forced) :
    literal ≠ 0 := by
  rintro rfl
  exact hproper _ (singleton_mem_of_mem_forced hliteral) List.mem_cons_self

/-- The search finds something wherever a formula holds. -/
theorem exists_model? (hproper : f.Proper) {v : Valuation} (h : f.holds v = true) :
    ∃ literals, f.model? = some literals := by
  fun_induction model? f with
  | case1 f hempty =>
    obtain ⟨clause, hclause, hnil⟩ := List.any_eq_true.mp hempty
    obtain ⟨literal, hliteral, -⟩ := holds_iff.mp h clause hclause
    rw [List.isEmpty_iff.mp hnil] at hliteral
    exact absurd hliteral List.not_mem_nil
  | case2 f hempty first others hforced known hclash =>
    -- Two forced literals would have to hold that exclude each other.
    obtain ⟨literal, hliteral, hneg⟩ := List.any_eq_true.mp hclash
    rw [contains_ofList, ← hforced] at hneg
    rw [← hforced] at hliteral
    have hfalse := satisfies_of_mem_forced h hneg
    rw [v.satisfies_neg (ne_zero_of_mem_forced hproper hliteral),
      satisfies_of_mem_forced h hliteral] at hfalse
    cases hfalse
  | case3 f hempty first others hforced known hclash ih =>
    -- The valuation makes all forced literals true.
    have hleft : (f.assume known.contains).holds v = true := by
      apply holds_assume hproper h
      intro clause _ literal _ hknown
      rw [contains_ofList, ← hforced] at hknown
      exact satisfies_of_mem_forced h hknown
    obtain ⟨found, hfound⟩ := ih hproper.assume hleft
    rw [hfound]
    exact ⟨_, rfl⟩
  | case4 f hempty hforced hcommon => exact ⟨[], rfl⟩
  | case5 f hempty hforced literal hcommon found hfound ih => exact ⟨_, rfl⟩
  | case6 f hempty hforced literal hcommon hnone ih' ih =>
    obtain ⟨clause, hclause, hmem⟩ := mem_of_commonLiteral? hcommon
    have hzero : literal ≠ 0 := fun h => hproper clause hclause (h ▸ hmem)
    cases hsat : v.satisfies literal with
    | true =>
      -- The literal that was tried first would have led to something.
      have hleft : (f.assume (· == literal)).holds v = true := by
        apply holds_assume hproper h
        intro _ _ other _ hknown
        rw [beq_iff_eq.mp hknown, hsat]
      obtain ⟨found, hfound⟩ := ih' hproper.assume hleft
      rw [hnone] at hfound
      cases hfound
    | false =>
      have hleft : (f.assume (· == -literal)).holds v = true := by
        apply holds_assume hproper h
        intro _ _ other _ hknown
        rw [beq_iff_eq.mp hknown, v.satisfies_neg hzero, hsat]
        rfl
      obtain ⟨found, hfound⟩ := ih hproper.assume hleft
      rw [hfound]
      exact ⟨_, rfl⟩

/-- **The search by splitting is a solver.** -/
theorem exact_splitSolver : Solver.Exact splitSolver where
  holds f v hproper h := by
    obtain ⟨literals, hliterals, rfl⟩ := Option.map_eq_some_iff.mp h
    exact (model_of_model? hproper hliterals).holds hproper
  unsatisfiable f hproper h v := by
    rw [Bool.eq_false_iff]
    intro hholds
    obtain ⟨literals, hliterals⟩ := exists_model? hproper hholds
    rw [splitSolver, hliterals] at h
    cases h

end Formula

end Dichotomy
