import Dichotomy.Proofs.DifferenceFormula
import Mathlib.Data.List.Perm.Subperm

/-!
# Finding all differences

With a solver that can be relied on, the search for a difference answers exactly: it refuses
diagrams that test something else than the inputs, it finds an assignment whenever there is one,
and asking again without the assignments already found goes through all of them.

## Main statements

- `Difference.foreignTest?_eq_none_iff`: which diagrams are refused.
- `Difference.exists_find?`: what one answer says.
- `Difference.exists_collect`, `Difference.exists_findAll`: what asking again leads to.
- `Difference.find?_exact`: all of it together.
-/

namespace Dichotomy

variable {ι κ : Type}

/-! ## Foreign tests -/

namespace Diagram

theorem mem_of_foreignTest? {n : Nat} {d : Diagram ι} {var : Int}
    (h : d.foreignTest? n = some var) : var ∈ d.tests ∧ var ∉ inputNumbers n := by
  induction d with
  | leaf mark cell => cases h
  | branch mark input high low ihHigh ihLow =>
    rw [foreignTest?] at h
    split at h
    · rw [Option.or_eq_some_iff] at h
      rcases h with h | ⟨-, h⟩
      · obtain ⟨hmem, hnot⟩ := ihLow h
        exact ⟨by simp [tests, hmem], hnot⟩
      · obtain ⟨hmem, hnot⟩ := ihHigh h
        exact ⟨by simp [tests, hmem], hnot⟩
    · next hrange =>
      obtain rfl := Option.some.inj h
      exact ⟨List.mem_cons_self, fun hmem => hrange (mem_inputNumbers.mp hmem)⟩

/-- A diagram is let through exactly when it tests inputs only. -/
theorem foreignTest?_eq_none_iff {n : Nat} {d : Diagram ι} :
    d.foreignTest? n = none ↔ ∀ var ∈ d.tests, var ∈ inputNumbers n := by
  constructor
  · intro h
    induction d with
    | leaf mark cell =>
      intro var hvar
      cases hvar
    | branch mark input high low ihHigh ihLow =>
      rw [foreignTest?] at h
      split at h
      · next hrange =>
        rw [Option.or_eq_none_iff] at h
        intro var hvar
        rcases List.mem_cons.mp hvar with rfl | hvar
        · exact mem_inputNumbers.mpr hrange
        · rcases List.mem_append.mp hvar with hvar | hvar
          · exact ihHigh h.2 var hvar
          · exact ihLow h.1 var hvar
      · cases h
  · intro h
    cases hforeign : d.foreignTest? n with
    | none => rfl
    | some var =>
      obtain ⟨hmem, hnot⟩ := mem_of_foreignTest? hforeign
      exact absurd (h var hmem) hnot

end Diagram

namespace Difference

/-- An assignment that is still to be found: it distinguishes two diagrams and begins with no
    excluded one. -/
structure Sought (first : Diagram ι) (second : Diagram κ) (n : Nat) (excluded : List Assignment)
    (a : Assignment) : Prop where
  length : a.length = n
  distinguishes : Distinguishes first second a
  notExcluded : ∀ e ∈ excluded, ¬ e <+: a

variable {solver : Solver} {n : Nat} {first : Diagram ι} {second : Diagram κ}
  {excluded : List Assignment}

/-! ## One answer -/

/-- Diagrams are refused with the name of something they test that is not an input. -/
theorem find?_of_foreign (h : ∃ var ∈ first.tests ++ second.tests, var ∉ inputNumbers n) :
    ∃ var ∈ first.tests ++ second.tests, var ∉ inputNumbers n ∧
      find? solver first second n excluded = .error (.foreignInput var n) := by
  cases hforeign : (first.foreignTest? n).or (second.foreignTest? n) with
  | none =>
    obtain ⟨var, hmem, hnot⟩ := h
    rw [Option.or_eq_none_iff] at hforeign
    rcases List.mem_append.mp hmem with hmem | hmem
    · exact absurd (Diagram.foreignTest?_eq_none_iff.mp hforeign.1 var hmem) hnot
    · exact absurd (Diagram.foreignTest?_eq_none_iff.mp hforeign.2 var hmem) hnot
  | some var =>
    have hfind : find? solver first second n excluded = .error (.foreignInput var n) := by
      rw [find?, hforeign]
    -- The first diagram is looked at first.
    rcases Option.or_eq_some_iff.mp hforeign with h | ⟨-, h⟩
    · obtain ⟨hmem, hnot⟩ := Diagram.mem_of_foreignTest? h
      exact ⟨var, List.mem_append_left _ hmem, hnot, hfind⟩
    · obtain ⟨hmem, hnot⟩ := Diagram.mem_of_foreignTest? h
      exact ⟨var, List.mem_append_right _ hmem, hnot, hfind⟩

theorem find?_of_tests (hfirst : ∀ var ∈ first.tests, var ∈ inputNumbers n)
    (hsecond : ∀ var ∈ second.tests, var ∈ inputNumbers n) :
    find? solver first second n excluded =
      .ok (if (differences n first second).isEmpty || excluded.any List.isEmpty then none
        else (solver (question n first second excluded)).map fun v => v.inputs n) := by
  have hproper : (question n first second excluded).Proper := proper_question hfirst hsecond
  -- Numbering starts above the inputs, so no variable has the number zero.
  have hzero : ((question n first second excluded).any fun clause => clause.contains 0) = false := by
    rw [List.any_eq_false]
    intro clause hclause
    simpa using hproper clause hclause
  rw [find?, Diagram.foreignTest?_eq_none_iff.mpr hfirst,
    Diagram.foreignTest?_eq_none_iff.mpr hsecond, formula?_eq]
  cases (differences n first second).isEmpty || excluded.any List.isEmpty with
  | true => rfl
  | false =>
    simp only [Option.or_none, Bool.false_eq_true, if_false, hzero]
    rfl

/-- **One answer**: an assignment that is found is one of those sought, and none is found only if
    there is none. -/
theorem exists_find? (hsolver : solver.Exact) (hfirst : ∀ var ∈ first.tests, var ∈ inputNumbers n)
    (hsecond : ∀ var ∈ second.tests, var ∈ inputNumbers n) (hlen : ∀ e ∈ excluded, e.length ≤ n) :
    ∃ answer, find? solver first second n excluded = .ok answer ∧
      (∀ a, answer = some a → Sought first second n excluded a) ∧
      (answer = none → ∀ a, ¬ Sought first second n excluded a) := by
  have hproper : (question n first second excluded).Proper := proper_question hfirst hsecond
  have hholds : ∀ a, Sought first second n excluded a →
      ∃ v, (question n first second excluded).holds v = true := by
    intro a ha
    exact exists_holds ha.length hfirst hsecond hlen ha.distinguishes ha.notExcluded
  refine ⟨_, find?_of_tests hfirst hsecond, ?_⟩
  split
  next hnothing =>
    refine ⟨by simp, fun _ a ha => ?_⟩
    rcases Bool.or_eq_true_iff.mp hnothing with hempty | hempty
    · -- Without a clash there is no difference that could hold.
      obtain ⟨v, hv⟩ := hholds a ha
      obtain ⟨-, ⟨entry, hentry, -⟩, -⟩ := holds_question.mp hv
      rw [List.isEmpty_iff.mp hempty] at hentry
      cases hentry
    · obtain ⟨e, he, hnil⟩ := List.any_eq_true.mp hempty
      apply ha.notExcluded e he
      rw [List.isEmpty_iff.mp hnil]
      exact List.nil_prefix
  next =>
    cases hsolve : solver (question n first second excluded) with
    | none =>
      refine ⟨by simp, fun _ a ha => ?_⟩
      obtain ⟨v, hv⟩ := hholds a ha
      rw [hsolver.unsatisfiable _ hproper hsolve v] at hv
      cases hv
    | some v =>
      refine ⟨fun a ha => ?_, by simp⟩
      obtain rfl := Option.some.inj ha
      obtain ⟨hdistinguishes, hexcluded⟩ :=
        distinguishes_of_holds hfirst hsecond hlen (hsolver.holds _ v hproper hsolve)
      exact ⟨v.length_inputs n, hdistinguishes, hexcluded⟩

/-! ## Asking again -/

/-- Once an assignment is excluded, the others are still sought. -/
theorem sought_append_iff {a b : Assignment} (ha : a.length = n) :
    Sought first second n (excluded ++ [a]) b ↔ Sought first second n excluded b ∧ b ≠ a := by
  constructor
  · rintro ⟨hlength, hdistinguishes, hnot⟩
    refine ⟨⟨hlength, hdistinguishes, fun e he => hnot e (List.mem_append_left _ he)⟩, ?_⟩
    rintro rfl
    exact hnot b (by simp) (List.prefix_refl b)
  · rintro ⟨⟨hlength, hdistinguishes, hnot⟩, hne⟩
    refine ⟨hlength, hdistinguishes, fun e he hfront => ?_⟩
    rcases List.mem_append.mp he with he | he
    · exact hnot e he hfront
    · -- Of two assignments of the same length, one begins with the other only if they are equal.
      rw [List.mem_singleton.mp he] at hfront
      exact hne (hfront.eq_of_length (ha.trans hlength.symm)).symm

/-- Assignments that answer one question after the other, each excluded from the next one. -/
def Answers (solver : Solver) (first : Diagram ι) (second : Diagram κ) (n : Nat)
    (excluded answers : List Assignment) : Prop :=
  ∀ (i : Nat) (a : Assignment), answers[i]? = some a →
    find? solver first second n (excluded ++ answers.take i) = .ok (some a)

theorem Answers.cons {a : Assignment} {answers : List Assignment}
    (hfind : find? solver first second n excluded = .ok (some a))
    (h : Answers solver first second n (excluded ++ [a]) answers) :
    Answers solver first second n excluded (a :: answers) := by
  intro i b hget
  cases i with
  | zero =>
    obtain rfl : a = b := Option.some.inj hget
    rw [List.take_zero, List.append_nil]
    exact hfind
  | succ i =>
    have hnext := h i b hget
    rwa [List.append_assoc, List.singleton_append] at hnext

/-- **Asking again** finds different assignments, all of them sought, and it stops early only when
    nothing is sought any more. -/
theorem exists_collect (hsolver : solver.Exact)
    (hfirst : ∀ var ∈ first.tests, var ∈ inputNumbers n)
    (hsecond : ∀ var ∈ second.tests, var ∈ inputNumbers n) (hlen : ∀ e ∈ excluded, e.length ≤ n)
    (limit : Nat) :
    ∃ answers, collect solver first second n limit excluded = .ok answers ∧
      Answers solver first second n excluded answers ∧ answers.Nodup ∧
      (∀ a ∈ answers, Sought first second n excluded a) ∧
      (answers.length = limit ∨
        find? solver first second n (excluded ++ answers) = .ok none) := by
  induction limit generalizing excluded with
  | zero => exact ⟨[], rfl, by simp [Answers], List.nodup_nil, by simp, .inl rfl⟩
  | succ limit ih =>
    obtain ⟨answer, hfind, hsome, -⟩ := exists_find? hsolver hfirst hsecond hlen
    cases answer with
    | none =>
      -- Nothing is found, so this was the last question.
      refine ⟨[], ?_, by simp [Answers], List.nodup_nil, by simp, ?_⟩
      · rw [collect, hfind]
        rfl
      · rw [List.append_nil]
        exact .inr hfind
    | some a =>
      -- What is found from now on is sought without the assignment just found.
      have ha := hsome a rfl
      have hlen' : ∀ e ∈ excluded ++ [a], e.length ≤ n := by
        intro e he
        rcases List.mem_append.mp he with he | he
        · exact hlen e he
        · rw [List.mem_singleton.mp he, ha.length]
      obtain ⟨answers, hcollect, hanswers, hnodup, hsought, hend⟩ := ih hlen'
      have hothers : ∀ b ∈ answers, Sought first second n excluded b ∧ b ≠ a := fun b hb =>
        (sought_append_iff ha.length).mp (hsought b hb)
      refine ⟨a :: answers, ?_, .cons hfind hanswers, ?_, ?_, ?_⟩
      · rw [collect, hfind]
        simp only [bind, Except.bind, hcollect]
        rfl
      · refine List.nodup_cons.mpr ⟨fun hmem => ?_, hnodup⟩
        exact (hothers a hmem).2 rfl
      · intro b hb
        rcases List.mem_cons.mp hb with rfl | hb
        · exact ha
        · exact (hothers b hb).1
      · rcases hend with hend | hend
        · exact .inl (congrArg Nat.succ hend)
        · rw [List.append_assoc, List.singleton_append] at hend
          exact .inr hend

/-- Different assignments of the inputs are no more than there are rows. -/
theorem length_le_rowCount {answers : List Assignment} (hnodup : answers.Nodup)
    (hlength : ∀ a ∈ answers, a.length = n) : answers.length ≤ rowCount n := by
  have hsub : answers ⊆ Assignment.all n := fun a ha => Assignment.mem_all.mpr (hlength a ha)
  have hle := (hnodup.subperm hsub).length_le
  rwa [Assignment.all, List.length_map, List.length_range] at hle

/-- Asking again goes on until nothing is sought any more. -/
theorem exists_findAll (hsolver : solver.Exact)
    (hfirst : ∀ var ∈ first.tests, var ∈ inputNumbers n)
    (hsecond : ∀ var ∈ second.tests, var ∈ inputNumbers n)
    (hlen : ∀ e ∈ excluded, e.length ≤ n) :
    ∃ answers, findAll solver first second n excluded = .ok answers ∧
      Answers solver first second n excluded answers ∧
      find? solver first second n (excluded ++ answers) = .ok none ∧ answers.Nodup ∧
      ∀ a, a ∈ answers ↔ Sought first second n excluded a := by
  -- The search asks once more than there are rows, so it does not stop for want of questions.
  obtain ⟨answers, hcollect, hanswers, hnodup, hsought, hend⟩ :=
    exists_collect hsolver hfirst hsecond hlen (rowCount n + 1)
  have hall : findAll solver first second n excluded =
      collect solver first second n (rowCount n + 1) excluded := rfl
  have hnone : find? solver first second n (excluded ++ answers) = .ok none := by
    refine hend.resolve_left fun hfull => ?_
    have hle := length_le_rowCount hnodup fun a ha => (hsought a ha).length
    omega
  refine ⟨answers, hall.trans hcollect, hanswers, hnone, hnodup, fun a => ⟨hsought a, fun ha => ?_⟩⟩
  -- What has not been found would still be sought after the last answer.
  by_contra hmissing
  have hlen' : ∀ e ∈ excluded ++ answers, e.length ≤ n := by
    intro e he
    rcases List.mem_append.mp he with he | he
    · exact hlen e he
    · exact Nat.le_of_eq (hsought e he).length
  obtain ⟨answer, hfind, -, hstop⟩ := exists_find? hsolver hfirst hsecond hlen'
  rw [hnone] at hfind
  refine hstop (Except.ok.inj hfind).symm a ⟨ha.length, ha.distinguishes, fun e he hfront => ?_⟩
  rcases List.mem_append.mp he with he | he
  · exact ha.notExcluded e he hfront
  · apply hmissing
    rwa [← hfront.eq_of_length ((hsought e he).length.trans ha.length.symm)]

/-! ## The comparison -/

/-- The comparison fails only with the name of something foreign that is tested. -/
theorem exists_foreign_of_find?_eq_error (hsolver : solver.Exact)
    (hlen : ∀ e ∈ excluded, e.length ≤ n) {fault : Fault}
    (h : find? solver first second n excluded = .error fault) :
    ∃ var ∈ first.tests ++ second.tests, var ∉ inputNumbers n ∧ fault = .foreignInput var n := by
  by_cases hforeign : ∃ var ∈ first.tests ++ second.tests, var ∉ inputNumbers n
  · obtain ⟨var, hmem, hnot, hfind⟩ := find?_of_foreign hforeign
    exact ⟨var, hmem, hnot, Except.error.inj (h.symm.trans hfind)⟩
  · -- Without foreign tests there is an answer.
    simp only [not_exists, not_and, not_not, List.mem_append] at hforeign
    obtain ⟨answer, hfind, -⟩ := exists_find? hsolver (fun var hvar => hforeign var (.inl hvar))
      (fun var hvar => hforeign var (.inr hvar)) hlen
    rw [h] at hfind
    cases hfind

theorem sought_iff {a : Assignment} :
    Sought first second n excluded a ↔
      a.length = n ∧ Distinguishes first second a ∧ ∀ e ∈ excluded, ¬ e <+: a := by
  constructor
  · intro h
    exact ⟨h.length, h.distinguishes, h.notExcluded⟩
  · intro h
    exact ⟨h.1, h.2.1, h.2.2⟩

/-- Nothing is sought exactly when all differences are excluded. -/
theorem forall_not_sought_iff :
    (∀ a, ¬ Sought first second n excluded a) ↔
      ∀ a : Assignment, a.length = n → Distinguishes first second a → ∃ e ∈ excluded, e <+: a := by
  constructor
  · intro h a ha hdistinguishes
    by_contra hnot
    apply h a
    refine ⟨ha, hdistinguishes, ?_⟩
    intro e he hfront
    exact hnot ⟨e, he, hfront⟩
  · intro h a ha
    obtain ⟨e, he, hfront⟩ := h a ha.length ha.distinguishes
    exact ha.notExcluded e he hfront

/-- **The comparison is exact**: it refuses diagrams exactly when a branch tests something that is
    not an input; else it finds nothing exactly when every assignment on which the diagrams give
    different literals begins with an excluded one, and what it finds is such an assignment that
    begins with none.  Asking again until nothing is found lists each of them once. -/
theorem find?_exact (hsolver : solver.Exact) (n : Nat) (first : Diagram ι) (second : Diagram κ)
    (excluded : List Assignment) (hlen : ∀ e ∈ excluded, e.length ≤ n) :
    ((∃ fault, find? solver first second n excluded = .error fault) ↔
        ∃ var ∈ first.tests ++ second.tests, ¬ (0 ≤ var ∧ var < n)) ∧
      (∀ fault, find? solver first second n excluded = .error fault →
        ∃ var ∈ first.tests ++ second.tests, ¬ (0 ≤ var ∧ var < n) ∧ fault = .foreignInput var n) ∧
      ((∀ var ∈ first.tests ++ second.tests, 0 ≤ var ∧ var < n) →
        (∃ answer, find? solver first second n excluded = .ok answer ∧
          (answer = none ↔ ∀ a : Assignment, a.length = n → Distinguishes first second a →
            ∃ e ∈ excluded, e <+: a) ∧
          ∀ a, answer = some a → a.length = n ∧ (∀ e ∈ excluded, ¬ e <+: a) ∧
            Distinguishes first second a) ∧
        ∃ answers, findAll solver first second n excluded = .ok answers ∧
          Answers solver first second n excluded answers ∧
          find? solver first second n (excluded ++ answers) = .ok none ∧ answers.Nodup ∧
          ∀ a, a ∈ answers ↔ a.length = n ∧ Distinguishes first second a ∧
            ∀ e ∈ excluded, ¬ e <+: a) := by
  simp only [← mem_inputNumbers]
  refine ⟨⟨?_, ?_⟩, ?_, ?_⟩
  · rintro ⟨fault, hfault⟩
    obtain ⟨var, hmem, hnot, -⟩ := exists_foreign_of_find?_eq_error hsolver hlen hfault
    exact ⟨var, hmem, hnot⟩
  · intro hforeign
    obtain ⟨var, -, -, hfind⟩ := find?_of_foreign hforeign
    exact ⟨_, hfind⟩
  · intro fault hfault
    exact exists_foreign_of_find?_eq_error hsolver hlen hfault
  · intro htests
    have hfirst : ∀ var ∈ first.tests, var ∈ inputNumbers n := fun var hvar =>
      htests var (List.mem_append_left _ hvar)
    have hsecond : ∀ var ∈ second.tests, var ∈ inputNumbers n := fun var hvar =>
      htests var (List.mem_append_right _ hvar)
    constructor
    · obtain ⟨answer, hfind, hsome, hnone⟩ := exists_find? hsolver hfirst hsecond hlen
      refine ⟨answer, hfind, ?_, ?_⟩
      · rw [← forall_not_sought_iff]
        refine ⟨hnone, fun hall => ?_⟩
        cases answer with
        | none => rfl
        | some a => exact absurd (hsome a rfl) (hall a)
      · intro a ha
        have hsought := hsome a ha
        exact ⟨hsought.length, hsought.notExcluded, hsought.distinguishes⟩
    · obtain ⟨answers, hall, hanswers, hend, hnodup, hmem⟩ :=
        exists_findAll hsolver hfirst hsecond hlen
      exact ⟨answers, hall, hanswers, hend, hnodup, fun a => (hmem a).trans sought_iff⟩

/-- Two diagrams for different inputs, compared where the first input is false. -/
theorem find?_exact_inputs :
    let first : Diagram Unit := .branch () 0 (.leaf () (.literal "A")) (.leaf () (.literal "B"))
    let second : Diagram Unit := .branch () 1 (.leaf () (.literal "A")) (.leaf () (.literal "B"))
    Formula.splitSolver.Exact ∧ (∀ e ∈ [[true]], e.length ≤ 2) ∧
      (∀ var ∈ first.tests ++ second.tests, 0 ≤ var ∧ var < ((2 : Nat) : Int)) ∧
        ∃ answers, findAll Formula.splitSolver first second 2 [[true]] = .ok answers ∧
          [false, true] ∈ answers ∧ [true, false] ∉ answers := by
  intro first second
  have hlen : ∀ e ∈ [[true]], e.length ≤ 2 := by decide
  have htests : ∀ var ∈ first.tests ++ second.tests, 0 ≤ var ∧ var < ((2 : Nat) : Int) := by decide
  obtain ⟨-, -, hexact⟩ := find?_exact Formula.exact_splitSolver 2 first second [[true]] hlen
  obtain ⟨-, answers, hall, -, -, -, hmem⟩ := hexact htests
  refine ⟨Formula.exact_splitSolver, hlen, htests, answers, hall, ?_, ?_⟩
  · exact (hmem _).mpr ⟨rfl, ⟨"B", "A", rfl, rfl, by decide⟩, by decide⟩
  · intro hfound
    exact ((hmem _).mp hfound).2.2 [true] (by decide) (by decide)

end Difference

end Dichotomy
