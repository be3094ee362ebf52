import Dichotomy.Proofs.ScoreBounds
import Dichotomy.Proofs.TakenPaths

/-!
# Leaf paths

The paths of a diagram divide the assignments among the leaves: an assignment that covers the tested
inputs takes one path and no other, also where an input is tested again and some paths are taken by
nobody.  The paths are listed from left to right, high sides first, so of two paths the first one is
on the high side of the test at which they part.

The list is what a walk with a stack comes upon.  The walk keeps the diagrams that it has still to
visit, each with the path that leads there, and at a branch it puts the low side on the stack and
then the high side.

## Main statements

- `Diagram.filter_takes`: an assignment takes one path, which ends in its answer.
- `Diagram.pairwise_precedes`: the order of the paths.
- `Diagram.pathsFrom_eq`: what a stack still leads to.
- `Diagram.paths_partition`: all of this together.
-/

namespace Dichotomy

instance (a : Assignment) (path : List Int) : Decidable (a.Takes path) :=
  inferInstanceAs (Decidable (∀ literal ∈ path, a.valuation.satisfies literal = true))

namespace Diagram

variable {ι : Type}

/-! ## The path that is taken -/

/-- Of the paths of a branch, those on the side that its input chooses can be taken. -/
theorem filter_takes_branch {mark : ι} {var : Int} {high low : Diagram ι} {a : Assignment}
    (hvar : 0 ≤ var) :
    (branch mark var high low).paths.filter (fun entry => a.Takes entry.1) =
      if a.value var then
        (high.paths.filter fun entry => a.Takes entry.1).map fun (path, cell) =>
          ((var + 1) :: path, cell)
      else
        (low.paths.filter fun entry => a.Takes entry.1).map fun (path, cell) =>
          (-(var + 1) :: path, cell) := by
  rw [paths, List.filter_append, List.filter_map, List.filter_map]
  -- The literals of the two sides exclude each other, so one of the two lists is empty.
  simp only [Function.comp_def, Assignment.takes_high hvar, Assignment.takes_low hvar]
  cases a.value var with
  | true => simp
  | false => simp

/-- **One path is taken** by an assignment that covers the diagram, and it ends in the answer. -/
theorem filter_takes {d : Diagram ι} {a : Assignment} (hcovers : a.Covers d) :
    ∃ path cell, d.paths.filter (fun entry => a.Takes entry.1) = [(path, cell)] ∧
      d.eval a = .ok cell := by
  induction d with
  | leaf mark cell =>
    refine ⟨[], cell, ?_, rfl⟩
    simp [paths, Assignment.takes_nil]
  | branch mark var high low ihHigh ihLow =>
    obtain ⟨hvar, hhigh, hlow⟩ := covers_branch.mp hcovers
    rw [filter_takes_branch (mem_inputNumbers.mp hvar).1, eval_branch hvar]
    cases a.value var with
    | true =>
      obtain ⟨path, cell, hfilter, heval⟩ := ihHigh hhigh
      refine ⟨(var + 1) :: path, cell, ?_, heval⟩
      rw [if_pos rfl, hfilter]
      rfl
    | false =>
      obtain ⟨path, cell, hfilter, heval⟩ := ihLow hlow
      refine ⟨-(var + 1) :: path, cell, ?_, heval⟩
      rw [if_neg Bool.false_ne_true, hfilter]
      rfl

/-! ## The order of the paths -/

/-- One path stands before another one: they part at a test, where it goes on to the high side. -/
def Precedes (path other : List Int) : Prop :=
  ∃ common var rest rest', path = common ++ (var + 1) :: rest ∧
    other = common ++ -(var + 1) :: rest'

theorem Precedes.cons {path other : List Int} (h : Precedes path other) (literal : Int) :
    Precedes (literal :: path) (literal :: other) := by
  obtain ⟨common, var, rest, rest', rfl, rfl⟩ := h
  exact ⟨literal :: common, var, rest, rest', rfl, rfl⟩

/-- The paths are listed from left to right. -/
theorem pairwise_precedes (d : Diagram ι) :
    d.paths.Pairwise fun entry other => Precedes entry.1 other.1 := by
  induction d with
  | leaf mark cell => exact List.pairwise_singleton _ _
  | branch mark var high low ihHigh ihLow =>
    rw [paths, List.pairwise_append, List.pairwise_map, List.pairwise_map]
    refine ⟨ihHigh.imp fun h => h.cons _, ihLow.imp fun h => h.cons _, ?_⟩
    -- A path of the high side and one of the low side part at the root.
    intro entry hentry other hother
    obtain ⟨⟨path, cell⟩, -, rfl⟩ := List.mem_map.mp hentry
    obtain ⟨⟨path', cell'⟩, -, rfl⟩ := List.mem_map.mp hother
    exact ⟨[], var, path, path', rfl, rfl⟩

/-- They end in the leaves, from left to right. -/
theorem map_snd_paths (d : Diagram ι) : d.paths.map Prod.snd = d.cells := by
  induction d with
  | leaf mark cell => rfl
  | branch mark var high low ihHigh ihLow =>
    rw [paths, cells, ← ihHigh, ← ihLow, List.map_append, List.map_map, List.map_map]
    rfl

theorem length_paths (d : Diagram ι) : d.paths.length = d.decisions + 1 := by
  rw [← length_cells, ← map_snd_paths, List.length_map]

/-! ## Walking with a stack -/

/-- What is still to be visited: a diagram costs one step for each of its nodes. -/
def stepsLeft : List (List Int × Diagram ι) → Nat
  | [] => 0
  | (_, d) :: pending => 2 * d.decisions + 1 + stepsLeft pending

/-- The paths that a stack of diagrams leads to, each diagram coming with the path to it.  The top
    of the stack is visited first; a branch is replaced by its sides, the high one on top. -/
def pathsFrom : List (List Int × Diagram ι) → List (List Int × Cell)
  | [] => []
  | (path, leaf _ cell) :: pending => (path, cell) :: pathsFrom pending
  | (path, branch _ var high low) :: pending =>
    pathsFrom ((path ++ [var + 1], high) :: (path ++ [-(var + 1)], low) :: pending)
termination_by pending => stepsLeft pending
decreasing_by
  · simp only [stepsLeft]
    omega
  · -- A branch costs one step more than its two sides together.
    simp only [stepsLeft, decisions]
    omega

/-- **What a stack leads to**: the paths of its diagrams, one diagram after the other, each behind
    the path to its diagram. -/
theorem pathsFrom_eq (pending : List (List Int × Diagram ι)) :
    pathsFrom pending = pending.flatMap fun (path, d) =>
      d.paths.map fun (rest, cell) => (path ++ rest, cell) := by
  fun_induction pathsFrom pending with
  | case1 => rfl
  | case2 path mark cell pending ih =>
    rw [ih]
    simp [paths]
  | case3 path mark var high low pending ih =>
    -- The sides lead to the paths of the branch, with its literal already in front.
    rw [ih]
    simp [paths, Function.comp_def]

theorem pathsFrom_root (d : Diagram ι) : pathsFrom [([], d)] = d.paths := by
  rw [pathsFrom_eq]
  simp

/-! ## All paths together -/

/-- **The paths partition the assignments.**  An assignment that covers the tested inputs takes one
    entry of the list and no other, and the entry ends in its answer; a literal `v + 1` is taken as
    input `v` being true and `-(v + 1)` as its being false.  There is one entry more than there are
    decisions; the entries end in the leaves from left to right, and of two of them the first one is
    on the high side of the test at which they part.  A walk with a stack comes upon the same
    list. -/
theorem paths_partition (d : Diagram ι) :
    (∀ a : Assignment, a.Covers d → ∃ path cell,
      d.paths.filter (fun entry => a.Takes entry.1) = [(path, cell)] ∧ d.eval a = .ok cell) ∧
    (∀ (a : Assignment) (var : Int), var ∈ inputNumbers a.length →
      (a.Takes [var + 1] ↔ atPosition a var = .ok true) ∧
        (a.Takes [-(var + 1)] ↔ atPosition a var = .ok false)) ∧
    d.paths.length = d.decisions + 1 ∧ d.paths.map Prod.snd = d.cells ∧
    (d.paths.Pairwise fun entry other => Precedes entry.1 other.1) ∧
    pathsFrom [([], d)] = d.paths := by
  refine ⟨fun a => filter_takes, ?_, length_paths d, map_snd_paths d, pairwise_precedes d,
    pathsFrom_root d⟩
  intro a var hvar
  have hnonneg := (mem_inputNumbers.mp hvar).1
  rw [Assignment.takes_high hnonneg, Assignment.takes_low hnonneg, Assignment.atPosition_eq hvar]
  simp [Assignment.takes_nil]

/-- The input `1` is tested twice on the left, where nobody takes the second path.  The assignment
    takes the third one. -/
theorem paths_partition_repeated :
    let d : Tree := branch () 1 (branch () 1 (leaf () (.literal "A")) (leaf () (.literal "B")))
      (branch () 0 (leaf () .dontCare) (leaf () (.literal "A")))
    Assignment.Covers [true, false] d ∧
      d.paths.filter (fun entry => Assignment.Takes [true, false] entry.1) =
        [([-2, 1], .dontCare)] ∧
      d.eval [true, false] = .ok .dontCare ∧ d.paths.length = 4 := by
  intro d
  have hcovers : Assignment.Covers [true, false] d := by
    unfold Assignment.Covers
    decide
  obtain ⟨htaken, -, hlength, -⟩ := paths_partition d
  obtain ⟨path, cell, hfilter, heval⟩ := htaken [true, false] hcovers
  have hexact : d.paths.filter (fun entry => Assignment.Takes [true, false] entry.1) =
      [([-2, 1], .dontCare)] := by decide
  obtain ⟨rfl, rfl⟩ : path = [-2, 1] ∧ cell = .dontCare := by
    simpa using hfilter.symm.trans hexact
  exact ⟨hcovers, hfilter, heval, hlength⟩

end Diagram

end Dichotomy
