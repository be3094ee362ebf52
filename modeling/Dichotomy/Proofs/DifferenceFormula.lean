import Dichotomy.Check.Difference
import Dichotomy.Proofs.PathLiterals
import Dichotomy.Proofs.Satisfaction

/-!
# The formula for a difference

The formula asks for an assignment on which two diagrams differ.  It only ever says that a reach
variable implies the literals of a path and a difference variable implies two reach variables, never
the other way round.  This is enough: a valuation that makes the formula true is read as an
assignment that takes two paths with different ends, and for an assignment that takes such paths
just the three variables that belong to them are made true.

## Main statements

- `distinguishes_of_holds`: what a valuation of the formula says about its assignment.
- `exists_holds`: every assignment that is asked for gives a valuation.
-/

namespace Dichotomy

/-- Two diagrams give different literals for an assignment. -/
def Distinguishes {ι κ : Type} (first : Diagram ι) (second : Diagram κ) (a : Assignment) : Prop :=
  ∃ text text' : String, first.eval a = .ok (.literal text) ∧
    second.eval a = .ok (.literal text') ∧ text ≠ text'

theorem Diagram.mem_demands {ι : Type} {d : Diagram ι} {path : List Int} {text : String} :
    (path, text) ∈ d.demands ↔ (path, Cell.literal text) ∈ d.paths := by
  simp only [demands, List.mem_filterMap, Prod.exists]
  constructor
  · rintro ⟨other, cell, hmem, heq⟩
    cases cell with
    | literal other => simp_all
    | dontCare => cases heq
  · intro hmem
    exact ⟨path, .literal text, hmem, rfl⟩

namespace Difference

/-! ## Numbered things -/

section Numbered

variable {α : Type} {first k : Int} {things : List α} {x y : α}

theorem mem_numbered :
    (x, k) ∈ numbered first things ↔ ∃ i : Nat, things[i]? = some x ∧ k = first + i := by
  simp only [numbered, List.mem_map, Prod.exists, Prod.mk.injEq, List.mk_mem_zipIdx_iff_getElem?]
  constructor
  · rintro ⟨thing, i, hget, rfl, rfl⟩
    exact ⟨i, hget, rfl⟩
  · rintro ⟨i, hget, rfl⟩
    exact ⟨x, i, hget, rfl, rfl⟩

theorem mem_of_mem_numbered (h : (x, k) ∈ numbered first things) : x ∈ things := by
  obtain ⟨i, hget, -⟩ := mem_numbered.mp h
  exact List.mem_of_getElem? hget

theorem exists_mem_numbered (h : x ∈ things) (first : Int) : ∃ k, (x, k) ∈ numbered first things := by
  obtain ⟨i, hget⟩ := List.mem_iff_getElem?.mp h
  exact ⟨first + i, mem_numbered.mpr ⟨i, hget, rfl⟩⟩

theorem range_of_mem_numbered (h : (x, k) ∈ numbered first things) :
    first ≤ k ∧ k < first + (numbered first things).length := by
  obtain ⟨i, hget, rfl⟩ := mem_numbered.mp h
  obtain ⟨hlt, -⟩ := List.getElem?_eq_some_iff.mp hget
  have hlength : (numbered first things).length = things.length := by simp [numbered]
  omega

/-- A number belongs to one thing only. -/
theorem eq_of_mem_numbered (hx : (x, k) ∈ numbered first things)
    (hy : (y, k) ∈ numbered first things) : x = y := by
  obtain ⟨i, hi, rfl⟩ := mem_numbered.mp hx
  obtain ⟨j, hj, heq⟩ := mem_numbered.mp hy
  obtain rfl : i = j := by omega
  rw [hi] at hj
  exact Option.some.inj hj

end Numbered

theorem mem_clashes {leaves leaves' : Reached} {reach reach' : Int} :
    (reach, reach') ∈ clashes leaves leaves' ↔
      ∃ path text path' text', ((path, text), reach) ∈ leaves ∧
        ((path', text'), reach') ∈ leaves' ∧ text ≠ text' := by
  simp only [clashes, List.mem_flatMap, List.mem_filterMap, Prod.exists]
  constructor
  · rintro ⟨path, text, number, hmem, path', text', number', hmem', heq⟩
    split at heq
    · cases heq
    · next hne =>
      obtain ⟨rfl, rfl⟩ := Prod.mk.inj (Option.some.inj heq)
      exact ⟨path, text, path', text', hmem, hmem', hne⟩
  · rintro ⟨path, text, path', text', hmem, hmem', hne⟩
    exact ⟨path, text, reach, hmem, path', text', reach', hmem', by rw [if_neg hne]⟩

/-! ## What the clauses say -/

section Clauses

variable {v : Valuation}

theorem holds_append (f g : Formula) :
    Formula.holds (f ++ g) v = true ↔ f.holds v = true ∧ g.holds v = true := by
  simp [Formula.holds]

/-- A clause of two literals, the first one negated, is an implication. -/
theorem exists_implication_iff {first second : Int} (hzero : first ≠ 0) :
    (∃ literal ∈ ([-first, second] : Clause), v.satisfies literal = true) ↔
      (v.satisfies first = true → v.satisfies second = true) := by
  simp only [List.mem_pair, exists_eq_or_imp, exists_eq_left, v.satisfies_neg hzero,
    Bool.not_eq_true']
  cases v.satisfies first <;> simp

/-- A reach variable implies all literals of its path. -/
theorem holds_reachClauses {leaves : Reached} (hzero : ∀ entry ∈ leaves, entry.2 ≠ 0) :
    (reachClauses leaves).holds v = true ↔
      ∀ path text reach, ((path, text), reach) ∈ leaves → v.satisfies reach = true →
        ∀ literal ∈ path, v.satisfies literal = true := by
  simp only [Formula.holds_iff, reachClauses, List.mem_flatMap, List.mem_map, Prod.exists]
  constructor
  · intro h path text reach hmem hreach literal hliteral
    have hclause := h _ ⟨path, text, reach, hmem, literal, hliteral, rfl⟩
    exact (exists_implication_iff (hzero _ hmem)).mp hclause hreach
  · rintro h clause ⟨path, text, reach, hmem, literal, hliteral, rfl⟩
    apply (exists_implication_iff (hzero _ hmem)).mpr
    intro hreach
    exact h path text reach hmem hreach literal hliteral

/-- A difference variable implies both of its reach variables. -/
theorem holds_clashClauses {differences : List ((Int × Int) × Int)}
    (hzero : ∀ entry ∈ differences, entry.2 ≠ 0) :
    (clashClauses differences).holds v = true ↔
      ∀ reach reach' difference, ((reach, reach'), difference) ∈ differences →
        v.satisfies difference = true → v.satisfies reach = true ∧ v.satisfies reach' = true := by
  simp only [Formula.holds_iff, clashClauses, List.mem_flatMap, Prod.exists]
  constructor
  · intro h reach reach' difference hmem hdifference
    constructor
    · have hclause := h [-difference, reach] ⟨reach, reach', difference, hmem, by simp⟩
      exact (exists_implication_iff (hzero _ hmem)).mp hclause hdifference
    · have hclause := h [-difference, reach'] ⟨reach, reach', difference, hmem, by simp⟩
      exact (exists_implication_iff (hzero _ hmem)).mp hclause hdifference
  · rintro h clause ⟨reach, reach', difference, hmem, hclause⟩
    have hboth := h reach reach' difference hmem
    rcases List.mem_pair.mp hclause with rfl | rfl
    · apply (exists_implication_iff (hzero _ hmem)).mpr
      intro hdifference
      exact (hboth hdifference).1
    · apply (exists_implication_iff (hzero _ hmem)).mpr
      intro hdifference
      exact (hboth hdifference).2

theorem mem_exclusion {a : Assignment} {literal : Int} :
    literal ∈ exclusion a ↔ ∃ (i : Nat) (value : Bool), a[i]? = some value ∧
      literal = if value then -(1 + (i : Int)) else 1 + (i : Int) := by
  simp only [exclusion, List.mem_map, Prod.exists]
  constructor
  · rintro ⟨value, number, hmem, rfl⟩
    obtain ⟨i, hget, rfl⟩ := mem_numbered.mp hmem
    exact ⟨i, value, hget, rfl⟩
  · rintro ⟨i, value, hget, rfl⟩
    exact ⟨value, 1 + i, mem_numbered.mpr ⟨i, hget, rfl⟩, rfl⟩

/-- The clause of an excluded assignment forbids the assignments that begin with it. -/
theorem exists_exclusion_iff {a excluded : Assignment} (hagrees : v.Agrees a)
    (hlen : excluded.length ≤ a.length) :
    (∃ literal ∈ exclusion excluded, v.satisfies literal = true) ↔ ¬ excluded <+: a := by
  have hsatisfies : ∀ (i : Nat) (value : Bool), excluded[i]? = some value →
      (v.satisfies (if value then -(1 + (i : Int)) else 1 + (i : Int)) = true ↔
        a[i]? ≠ some value) := by
    intro i value hget
    obtain ⟨hlt, -⟩ := List.getElem?_eq_some_iff.mp hget
    have hi : i < a.length := by omega
    -- An excluded assignment is no longer than the inputs, so its literals are about inputs.
    have hvar : (i : Int) ∈ inputNumbers a.length := mem_inputNumbers.mpr (by omega)
    have hvalue : a.value i = a[i] := by
      simp [Assignment.value, List.getD_eq_getElem?_getD, hi]
    rw [List.getElem?_eq_getElem hi, ← hvalue, Int.add_comm]
    cases value
    · rw [if_neg Bool.false_ne_true, hagrees.satisfies_input hvar]
      simp
    · rw [if_pos rfl, hagrees.satisfies_neg_input hvar]
      simp
  rw [List.prefix_iff_getElem?]
  constructor
  · rintro ⟨literal, hmem, hsat⟩ hfront
    obtain ⟨i, value, hget, rfl⟩ := mem_exclusion.mp hmem
    obtain ⟨hlt, rfl⟩ := List.getElem?_eq_some_iff.mp hget
    exact (hsatisfies i _ hget).mp hsat (hfront i hlt)
  · intro hfront
    simp only [not_forall] at hfront
    obtain ⟨i, hlt, hne⟩ := hfront
    have hget := List.getElem?_eq_getElem hlt
    exact ⟨_, mem_exclusion.mpr ⟨i, _, hget, rfl⟩, (hsatisfies i _ hget).mpr hne⟩

end Clauses

/-! ## The whole formula -/

section Question

variable {ι κ : Type}

/-- The literal leaves of the first diagram with their reach variables. -/
def leaves (n : Nat) (first : Diagram ι) : Reached := numbered (n + 1) first.demands

/-- The literal leaves of the second diagram with their reach variables. -/
def otherLeaves (n : Nat) (first : Diagram ι) (second : Diagram κ) : Reached :=
  numbered (n + 1 + (leaves n first).length) second.demands

/-- The clashing pairs of leaves with their difference variables. -/
def differences (n : Nat) (first : Diagram ι) (second : Diagram κ) : List ((Int × Int) × Int) :=
  numbered (n + 1 + (leaves n first).length + (otherLeaves n first second).length)
    (clashes (leaves n first) (otherLeaves n first second))

/-- The formula that is given to the solver. -/
def question (n : Nat) (first : Diagram ι) (second : Diagram κ) (excluded : List Assignment) :
    Formula :=
  reachClauses (leaves n first) ++ reachClauses (otherLeaves n first second) ++
    clashClauses (differences n first second) ++
    [(differences n first second).map fun (_, difference) => difference] ++
    excluded.map exclusion

theorem formula?_eq (n : Nat) (first : Diagram ι) (second : Diagram κ)
    (excluded : List Assignment) :
    formula? n first second excluded =
      if (differences n first second).isEmpty || excluded.any List.isEmpty then none
      else some (question n first second excluded) := rfl

variable {n : Nat} {first : Diagram ι} {second : Diagram κ} {excluded : List Assignment}
  {v : Valuation}

theorem range_of_mem_leaves {entry : (List Int × String) × Int} (h : entry ∈ leaves n first) :
    n < entry.2 ∧ entry.2 < n + 1 + (leaves n first).length := by
  have hrange := range_of_mem_numbered (show (entry.1, entry.2) ∈ leaves n first from h)
  rw [← leaves] at hrange
  omega

theorem range_of_mem_otherLeaves {entry : (List Int × String) × Int}
    (h : entry ∈ otherLeaves n first second) :
    n + 1 + (leaves n first).length ≤ entry.2 ∧
      entry.2 < n + 1 + (leaves n first).length + (otherLeaves n first second).length := by
  have hrange := range_of_mem_numbered (show (entry.1, entry.2) ∈ otherLeaves n first second from h)
  rw [← otherLeaves] at hrange
  exact hrange

theorem le_of_mem_differences {entry : (Int × Int) × Int} (h : entry ∈ differences n first second) :
    n + 1 + (leaves n first).length + (otherLeaves n first second).length ≤ entry.2 :=
  (range_of_mem_numbered (show (entry.1, entry.2) ∈ differences n first second from h)).1

theorem exists_leaves_of_mem_differences {reach reach' difference : Int}
    (h : ((reach, reach'), difference) ∈ differences n first second) :
    ∃ path text path' text', ((path, text), reach) ∈ leaves n first ∧
      ((path', text'), reach') ∈ otherLeaves n first second ∧ text ≠ text' :=
  mem_clashes.mp (mem_of_mem_numbered h)

/-- What a valuation of the formula makes true. -/
theorem holds_question :
    (question n first second excluded).holds v = true ↔
      ((∀ path text reach, ((path, text), reach) ∈ leaves n first →
          v.satisfies reach = true → ∀ literal ∈ path, v.satisfies literal = true) ∧
        (∀ path text reach, ((path, text), reach) ∈ otherLeaves n first second →
          v.satisfies reach = true → ∀ literal ∈ path, v.satisfies literal = true) ∧
        ∀ reach reach' difference, ((reach, reach'), difference) ∈ differences n first second →
          v.satisfies difference = true →
            v.satisfies reach = true ∧ v.satisfies reach' = true) ∧
      (∃ entry ∈ differences n first second, v.satisfies entry.2 = true) ∧
        ∀ e ∈ excluded, ∃ literal ∈ exclusion e, v.satisfies literal = true := by
  -- All numbers lie above those of the inputs.
  have hleaves : ∀ entry ∈ leaves n first, entry.2 ≠ 0 := by
    intro entry hentry
    have := range_of_mem_leaves hentry
    omega
  have hotherLeaves : ∀ entry ∈ otherLeaves n first second, entry.2 ≠ 0 := by
    intro entry hentry
    have := range_of_mem_otherLeaves hentry
    omega
  have hdifferences : ∀ entry ∈ differences n first second, entry.2 ≠ 0 := by
    intro entry hentry
    have := le_of_mem_differences hentry
    omega
  have hsome : Formula.holds [(differences n first second).map fun (_, difference) => difference] v =
      true ↔ ∃ entry ∈ differences n first second, v.satisfies entry.2 = true := by
    simp [Formula.holds]
  have hexcluded : Formula.holds (excluded.map exclusion) v = true ↔
      ∀ e ∈ excluded, ∃ literal ∈ exclusion e, v.satisfies literal = true := by
    simp [Formula.holds]
  rw [question, holds_append, holds_append, holds_append, holds_append,
    holds_reachClauses hleaves, holds_reachClauses hotherLeaves, holds_clashClauses hdifferences,
    hsome, hexcluded]
  simp only [and_assoc]

theorem proper_reachClauses {leaves : Reached}
    (h : ∀ entry ∈ leaves, entry.2 ≠ 0 ∧ (0 : Int) ∉ entry.1.1) : (reachClauses leaves).Proper := by
  intro clause hclause hzero
  simp only [reachClauses, List.mem_flatMap, List.mem_map] at hclause
  obtain ⟨entry, hentry, literal, hliteral, rfl⟩ := hclause
  obtain ⟨hreach, hpath⟩ := h entry hentry
  rcases List.mem_pair.mp hzero with heq | rfl
  · omega
  · exact hpath hliteral

/-- No literal of the formula is zero. -/
theorem proper_question (hfirst : ∀ var ∈ first.tests, var ∈ inputNumbers n)
    (hsecond : ∀ var ∈ second.tests, var ∈ inputNumbers n) :
    (question n first second excluded).Proper := by
  have hleaves : (reachClauses (leaves n first)).Proper := by
    apply proper_reachClauses
    rintro ⟨⟨path, text⟩, reach⟩ hentry
    have hrange := range_of_mem_leaves hentry
    have hpath := Diagram.mem_demands.mp (mem_of_mem_numbered hentry)
    refine ⟨by omega, Diagram.ne_zero_of_mem_paths ?_ hpath⟩
    intro var hvar
    exact (mem_inputNumbers.mp (hfirst var hvar)).1
  have hotherLeaves : (reachClauses (otherLeaves n first second)).Proper := by
    apply proper_reachClauses
    rintro ⟨⟨path, text⟩, reach⟩ hentry
    have hrange := range_of_mem_otherLeaves hentry
    have hpath := Diagram.mem_demands.mp (mem_of_mem_numbered hentry)
    refine ⟨by omega, Diagram.ne_zero_of_mem_paths ?_ hpath⟩
    intro var hvar
    exact (mem_inputNumbers.mp (hsecond var hvar)).1
  intro clause hclause hzero
  simp only [question, List.mem_append, List.mem_singleton, List.mem_map] at hclause
  rcases hclause with (((hclause | hclause) | hclause) | rfl) | ⟨e, he, rfl⟩
  · exact hleaves clause hclause hzero
  · exact hotherLeaves clause hclause hzero
  · -- A clash clause has numbers of a difference and of a leaf.
    simp only [clashClauses, List.mem_flatMap] at hclause
    obtain ⟨⟨⟨reach, reach'⟩, difference⟩, hentry, hclause⟩ := hclause
    have hdifference := le_of_mem_differences hentry
    obtain ⟨_, _, _, _, hmem, hmem', -⟩ := exists_leaves_of_mem_differences hentry
    have hreach := range_of_mem_leaves hmem
    have hreach' := range_of_mem_otherLeaves hmem'
    rcases List.mem_pair.mp hclause with rfl | rfl
    · rcases List.mem_pair.mp hzero with heq | heq <;> simp only at * <;> omega
    · rcases List.mem_pair.mp hzero with heq | heq <;> simp only at * <;> omega
  · obtain ⟨entry, hentry, heq⟩ := List.mem_map.mp hzero
    have hdifference := le_of_mem_differences hentry
    omega
  · obtain ⟨i, value, -, heq⟩ := mem_exclusion.mp hzero
    split at heq <;> omega

/-! ## Valuations and assignments -/

/-- **Soundness**: the inputs of a valuation that makes the formula true distinguish the diagrams,
    and are not excluded. -/
theorem distinguishes_of_holds (hfirst : ∀ var ∈ first.tests, var ∈ inputNumbers n)
    (hsecond : ∀ var ∈ second.tests, var ∈ inputNumbers n)
    (hlen : ∀ e ∈ excluded, e.length ≤ n) (h : (question n first second excluded).holds v = true) :
    Distinguishes first second (v.inputs n) ∧ ∀ e ∈ excluded, ¬ e <+: v.inputs n := by
  have hagrees := v.agrees_inputs n
  obtain ⟨⟨hleaves, hotherLeaves, hdifferences⟩, ⟨⟨⟨reach, reach'⟩, difference⟩, hmem, hdifference⟩,
    hexcluded⟩ := holds_question.mp h
  constructor
  · -- The difference that holds brings in two leaves, and the paths to both are taken.
    obtain ⟨hreach, hreach'⟩ := hdifferences reach reach' difference hmem hdifference
    obtain ⟨path, text, path', text', hleaf, hleaf', hne⟩ := exists_leaves_of_mem_differences hmem
    refine ⟨text, text', ?_, ?_, hne⟩
    · apply Diagram.eval_of_mem_paths hagrees (by simpa using hfirst)
        (Diagram.mem_demands.mp (mem_of_mem_numbered hleaf))
      exact hleaves path text reach hleaf hreach
    · apply Diagram.eval_of_mem_paths hagrees (by simpa using hsecond)
        (Diagram.mem_demands.mp (mem_of_mem_numbered hleaf'))
      exact hotherLeaves path' text' reach' hleaf' hreach'
  · intro e he
    apply (exists_exclusion_iff hagrees (by simpa using hlen e he)).mp
    exact hexcluded e he

/-- The valuation of an assignment in which, above the inputs, some given variables are true. -/
def marking (a : Assignment) (marks : List Int) : Valuation := fun k =>
  if k ≤ a.length then a.value (k - 1) else marks.contains (k : Int)

theorem agrees_marking (a : Assignment) (marks : List Int) : (marking a marks).Agrees a := by
  intro var hvar
  have hrange := mem_inputNumbers.mp hvar
  have habs : ((var + 1).natAbs : Int) - 1 = var := by omega
  rw [marking, if_pos (by omega), habs]

theorem satisfies_marking {a : Assignment} {marks : List Int} {k : Int} (h : a.length < k) :
    (marking a marks).satisfies k = true ↔ k ∈ marks := by
  -- Above the inputs a variable is true if its number is marked.
  have habs : ((k.natAbs : Nat) : Int) = k := by omega
  rw [Valuation.satisfies, if_pos (by omega), marking, if_neg (by omega), habs]
  simp

/-- An assignment that is answered by a literal takes the path of a leaf that is asked for. -/
theorem exists_mem_demands {a : Assignment} {d : Diagram ι}
    (htests : ∀ var ∈ d.tests, var ∈ inputNumbers a.length) {text : String}
    (heval : d.eval a = .ok (.literal text)) :
    ∃ path, (path, text) ∈ d.demands ∧
      ∀ v : Valuation, v.Agrees a → ∀ literal ∈ path, v.satisfies literal = true := by
  obtain ⟨path, cell, hmem, hanswer, hpath⟩ := Diagram.exists_mem_paths htests
  rw [hanswer] at heval
  obtain rfl := Except.ok.inj heval
  exact ⟨path, Diagram.mem_demands.mpr hmem, hpath⟩

/-- The marked valuation of an assignment makes the formula true, if the marks are those of two
    leaves whose paths the assignment takes and of their difference. -/
theorem holds_marking {a : Assignment} {path path' : List Int} {text text' : String}
    {reach reach' difference : Int} (hreach : ((path, text), reach) ∈ leaves a.length first)
    (hreach' : ((path', text'), reach') ∈ otherLeaves a.length first second)
    (hdifference : ((reach, reach'), difference) ∈ differences a.length first second)
    (hpath : ∀ v : Valuation, v.Agrees a → ∀ literal ∈ path, v.satisfies literal = true)
    (hpath' : ∀ v : Valuation, v.Agrees a → ∀ literal ∈ path', v.satisfies literal = true)
    (hlen : ∀ e ∈ excluded, e.length ≤ a.length) (hexcluded : ∀ e ∈ excluded, ¬ e <+: a) :
    (question a.length first second excluded).holds
      (marking a [reach, reach', difference]) = true := by
  have hagrees := agrees_marking a [reach, reach', difference]
  -- The three variables lie in different ranges, so in each range only the chosen one is true.
  have hreachRange := range_of_mem_leaves hreach
  have hreachRange' := range_of_mem_otherLeaves hreach'
  have hdifferenceRange := le_of_mem_differences hdifference
  refine holds_question.mpr ⟨⟨?_, ?_, ?_⟩, ?_, ?_⟩
  · intro other _ number hmem hsat
    have hrange := range_of_mem_leaves hmem
    rw [satisfies_marking hrange.1] at hsat
    obtain rfl : number = reach := by
      simp only [List.mem_cons, List.not_mem_nil, or_false] at hsat
      simp only at *
      omega
    obtain ⟨rfl, -⟩ := Prod.mk.inj (eq_of_mem_numbered hmem hreach)
    exact hpath _ hagrees
  · intro other _ number hmem hsat
    have hrange := range_of_mem_otherLeaves hmem
    rw [satisfies_marking (by simp only at hrange; omega)] at hsat
    obtain rfl : number = reach' := by
      simp only [List.mem_cons, List.not_mem_nil, or_false] at hsat
      simp only at *
      omega
    obtain ⟨rfl, -⟩ := Prod.mk.inj (eq_of_mem_numbered hmem hreach')
    exact hpath' _ hagrees
  · intro number number' other hmem hsat
    have hrange := le_of_mem_differences hmem
    rw [satisfies_marking (by simp only at hrange; omega)] at hsat
    obtain rfl : other = difference := by
      simp only [List.mem_cons, List.not_mem_nil, or_false] at hsat
      simp only at *
      omega
    obtain ⟨rfl, rfl⟩ := Prod.mk.inj (eq_of_mem_numbered hmem hdifference)
    constructor
    · rw [satisfies_marking hreachRange.1]
      simp
    · rw [satisfies_marking (by simp only at hreachRange'; omega)]
      simp
  · refine ⟨_, hdifference, ?_⟩
    rw [satisfies_marking (by simp only at hdifferenceRange ⊢; omega)]
    simp
  · intro e he
    exact (exists_exclusion_iff hagrees (hlen e he)).mpr (hexcluded e he)

/-- **Completeness**: an assignment that distinguishes the diagrams and is not excluded gives a
    valuation that makes the formula true. -/
theorem exists_holds {a : Assignment} (ha : a.length = n)
    (hfirst : ∀ var ∈ first.tests, var ∈ inputNumbers n)
    (hsecond : ∀ var ∈ second.tests, var ∈ inputNumbers n)
    (hlen : ∀ e ∈ excluded, e.length ≤ n) (hdistinguishes : Distinguishes first second a)
    (hexcluded : ∀ e ∈ excluded, ¬ e <+: a) :
    ∃ v, (question n first second excluded).holds v = true := by
  subst ha
  obtain ⟨text, text', heval, heval', hne⟩ := hdistinguishes
  -- The paths that are taken give two reach variables, and their clash a difference variable.
  obtain ⟨path, hdemand, hpath⟩ := exists_mem_demands hfirst heval
  obtain ⟨path', hdemand', hpath'⟩ := exists_mem_demands hsecond heval'
  obtain ⟨reach, hreach⟩ := exists_mem_numbered hdemand (a.length + 1 : Int)
  obtain ⟨reach', hreach'⟩ := exists_mem_numbered hdemand'
    (a.length + 1 + (leaves a.length first).length : Int)
  have hclash : (reach, reach') ∈ clashes (leaves a.length first)
      (otherLeaves a.length first second) :=
    mem_clashes.mpr ⟨path, text, path', text', hreach, hreach', hne⟩
  obtain ⟨difference, hdifference⟩ := exists_mem_numbered hclash
    (a.length + 1 + (leaves a.length first).length + (otherLeaves a.length first second).length : Int)
  exact ⟨_, holds_marking hreach hreach' hdifference hpath hpath' hlen hexcluded⟩

end Question

end Difference

end Dichotomy
