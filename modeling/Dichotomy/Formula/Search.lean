import Dichotomy.Formula.Clause
import Std.Data.HashMap
import Std.Data.HashSet

/-!
# Satisfiability by splitting

The search takes literals as true and simplifies the formula each time.  Clauses of a single
literal leave no choice, so all their literals are taken together; when there is none, the
literal that is written most often is tried and then its negation, since it settles or shortens
the most clauses.  Every step removes at least one literal from the formula, so the search ends.
-/

namespace Dichotomy

namespace Formula

/-- The number of literals written in a formula. -/
def size : Formula → Nat
  | [] => 0
  | clause :: rest => clause.length + size rest

/-- What is left of a clause when the literals that satisfy `known` are true: their negations are
    of no use in it. -/
def rest (known : Int → Bool) (clause : Clause) : Clause :=
  if clause.any fun literal => known (-literal) then
    clause.filter fun literal => !known (-literal)
  else clause

/-- Takes the literals that satisfy `known` as true: clauses that hold one of them are satisfied,
    and the others keep what is left of them. -/
def assume (f : Formula) (known : Int → Bool) : Formula :=
  (f.filter fun clause => !clause.any known).map (rest known)

/-- The literal of a clause that has no other. -/
def onlyLiteral? : Clause → Option Int
  | [literal] => some literal
  | _ => none

/-- The literals that leave no choice. -/
def forced (f : Formula) : List Int := f.filterMap onlyLiteral?

/-- A count of literals. -/
structure Tally where
  /-- How often each literal has come. -/
  counts : Std.HashMap Int Nat
  /-- The literal that has come most often, and how often. -/
  leader : Option (Int × Nat)

namespace Tally

/-- Nothing counted. -/
def empty : Tally := ⟨∅, none⟩

/-- The leader once a literal has come `count` times. -/
def overtake (literal : Int) (count : Nat) : Option (Int × Nat) → Int × Nat
  | some (best, most) => if most < count then (literal, count) else (best, most)
  | none => (literal, count)

/-- Counts one more literal. -/
def add (tally : Tally) (literal : Int) : Tally :=
  let count := tally.counts.getD literal 0 + 1
  ⟨tally.counts.insert literal count, some (overtake literal count tally.leader)⟩

/-- Counts the literals of a clause. -/
def addClause (tally : Tally) (clause : Clause) : Tally := clause.foldl add tally

/-- The literal that has come most often. -/
def best? (tally : Tally) : Option Int := tally.leader.map Prod.fst

end Tally

/-- The literal that is written most often in a formula. -/
def commonLiteral? (f : Formula) : Option Int :=
  (f.foldl Tally.addClause Tally.empty).best?

/-! ## Each step makes the formula smaller -/

theorem length_rest_le (known : Int → Bool) (clause : Clause) :
    (rest known clause).length ≤ clause.length := by
  unfold rest
  split
  · exact List.length_filter_le _ _
  · exact Nat.le_refl _

theorem length_rest_lt {known : Int → Bool} {clause : Clause} {literal : Int}
    (hl : literal ∈ clause) (hk : known (-literal) = true) :
    (rest known clause).length < clause.length := by
  have hany : (clause.any fun literal => known (-literal)) = true :=
    List.any_eq_true.2 ⟨literal, hl, hk⟩
  rw [rest, if_pos hany]
  exact List.length_filter_lt_length_iff_exists.2 ⟨literal, hl, by simp [hk]⟩

theorem size_cons (clause : Clause) (f : Formula) :
    size (clause :: f) = clause.length + size f := rfl

theorem assume_cons (clause : Clause) (f : Formula) (known : Int → Bool) :
    assume (clause :: f) known =
      if clause.any known then assume f known else rest known clause :: assume f known := by
  by_cases h : clause.any known <;> simp [assume, h]

theorem size_assume_le (f : Formula) (known : Int → Bool) : size (assume f known) ≤ size f := by
  induction f with
  | nil => exact Nat.le_refl _
  | cons clause f ih =>
    rw [assume_cons, size_cons]
    split
    · omega
    · have := length_rest_le known clause
      rw [size_cons]; omega

/-- Taking literals as true removes something if one of them, or the negation of one of them,
    occurs in the formula. -/
theorem size_assume_lt {f : Formula} {known : Int → Bool} {clause : Clause} {literal : Int}
    (hc : clause ∈ f) (hl : literal ∈ clause)
    (hk : known literal = true ∨ known (-literal) = true) :
    size (assume f known) < size f := by
  induction f with
  | nil => exact absurd hc List.not_mem_nil
  | cons first f ih =>
    have htail := size_assume_le f known
    have hfirst := length_rest_le known first
    rw [assume_cons, size_cons]
    split
    next hany =>
      obtain ⟨l, hmem, -⟩ := List.any_eq_true.1 hany
      have := List.length_pos_of_mem hmem
      omega
    next hany =>
      rw [size_cons]
      rcases List.mem_cons.1 hc with rfl | hmem
      · rcases hk with hk | hk
        · exact absurd (List.any_eq_true.2 ⟨literal, hl, hk⟩) hany
        · have := length_rest_lt hl hk
          omega
      · have := ih hmem
        omega

theorem singleton_mem_of_mem_forced {f : Formula} {literal : Int} (h : literal ∈ f.forced) :
    [literal] ∈ f := by
  obtain ⟨clause, hc, hl⟩ := List.mem_filterMap.1 h
  unfold onlyLiteral? at hl
  split at hl
  · cases hl; exact hc
  · cases hl

theorem Tally.eq_or_of_best?_add {tally : Tally} {literal best : Int}
    (h : (tally.add literal).best? = some best) : best = literal ∨ tally.best? = some best := by
  obtain ⟨counts, leader⟩ := tally
  cases leader with
  | none => exact .inl (Option.some.inj h).symm
  | some leader =>
    simp only [best?, add, overtake, Option.map_some, Option.some.injEq] at h ⊢
    split at h
    · exact .inl h.symm
    · exact .inr h

theorem Tally.mem_or_of_best?_addClause {clause : Clause} {tally : Tally} {best : Int}
    (h : (tally.addClause clause).best? = some best) :
    best ∈ clause ∨ tally.best? = some best := by
  unfold addClause at h
  induction clause generalizing tally with
  | nil => exact .inr h
  | cons literal clause ih =>
    rcases ih h with h | h
    · exact .inl (List.mem_cons_of_mem _ h)
    · rcases eq_or_of_best?_add h with rfl | h
      · exact .inl List.mem_cons_self
      · exact .inr h

theorem Tally.mem_or_of_best?_foldl {f : Formula} {tally : Tally} {best : Int}
    (h : (f.foldl addClause tally).best? = some best) :
    (∃ clause ∈ f, best ∈ clause) ∨ tally.best? = some best := by
  induction f generalizing tally with
  | nil => exact .inr h
  | cons clause f ih =>
    rcases ih h with ⟨clause', hc, hb⟩ | h
    · exact .inl ⟨clause', List.mem_cons_of_mem _ hc, hb⟩
    · rcases mem_or_of_best?_addClause h with hb | h
      · exact .inl ⟨clause, List.mem_cons_self, hb⟩
      · exact .inr h

theorem mem_of_commonLiteral? {f : Formula} {literal : Int}
    (h : f.commonLiteral? = some literal) : ∃ clause ∈ f, literal ∈ clause :=
  (Tally.mem_or_of_best?_foldl h).resolve_right (by simp [Tally.empty, Tally.best?])

/-! ## The search -/

/-- The literals taken as true in a successful search. -/
def model? (f : Formula) : Option (List Int) :=
  if f.any List.isEmpty then none
  else
    match _hforced : f.forced with
    | first :: others =>
      let known := Std.HashSet.ofList (first :: others)
      if (first :: others).any fun literal => known.contains (-literal) then none
      else (model? (f.assume known.contains)).map (first :: others ++ ·)
    | [] =>
      match _hcommon : f.commonLiteral? with
      | none => some []
      | some literal =>
        match model? (f.assume (· == literal)) with
        | some literals => some (literal :: literals)
        | none => (model? (f.assume (· == -literal))).map (-literal :: ·)
termination_by f.size
decreasing_by
  · have hmem : first ∈ f.forced := by rw [_hforced]; exact List.mem_cons_self
    exact size_assume_lt (singleton_mem_of_mem_forced hmem) List.mem_cons_self
      (.inl (by simp))
  · obtain ⟨clause, hc, hl⟩ := mem_of_commonLiteral? _hcommon
    exact size_assume_lt hc hl (.inl (beq_self_eq_true _))
  · obtain ⟨clause, hc, hl⟩ := mem_of_commonLiteral? _hcommon
    exact size_assume_lt hc hl (.inr (beq_self_eq_true _))

/-- Looks for a valuation under which the formula holds; variables that no choice mentions are
    false. -/
def splitSolver : Solver := fun f =>
  f.model?.map fun literals v => literals.contains (v : Int)

end Formula

end Dichotomy
