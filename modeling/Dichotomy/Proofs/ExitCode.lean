import Mathlib
import Dichotomy.Proofs.OptionValues
import Dichotomy.Proofs.Runs
import Dichotomy.Proofs.Satisfaction
import Dichotomy.Proofs.TableSize

/-!
# The exit code

A run that is to search a table fails before anything has been printed or not at all.  It fails when
the cells cannot be read, when they are not as many as a table has, or when no format is left to
print in.

## Main statements

- `Settings.exists_table_iff`: when there is a table.
- `Settings.run_of_table`, `Settings.run_of_table_unusable`, `Settings.run_of_table_error`: how a
  run ends.
- `exit_code_eq_one_iff`: when the exit code is `1`.
-/

namespace Dichotomy

namespace Settings

open Session

variable {s : Settings} {sources : Sources} {solver : Solver} {table : Table}

/-- There is a table if the cells can be read and are as many as a table has. -/
theorem exists_table_iff : (∃ table, s.table sources = .ok table) ↔
    ∃ texts, s.texts sources = .ok texts ∧ ∃ n, texts.length = 2 ^ n := by
  rw [Settings.table]
  cases s.texts sources with
  | error fault =>
    constructor
    · rintro ⟨table, htable⟩
      cases htable
    · rintro ⟨texts, htexts, -⟩
      cases htexts
  | ok texts =>
    have hcells := Table.exists_ofCells_iff (texts.map s.cellOf)
    rw [List.length_map] at hcells
    constructor
    · intro htable
      exact ⟨texts, rfl, hcells.mp htable⟩
    · rintro ⟨texts', htexts, hlength⟩
      obtain rfl := Except.ok.inj htexts
      exact hcells.mpr hlength

theorem not_exists_table_iff : (¬ ∃ table, s.table sources = .ok table) ↔
    (∃ fault, s.texts sources = .error fault) ∨
      ∃ texts, s.texts sources = .ok texts ∧ ∀ n, texts.length ≠ 2 ^ n := by
  rw [exists_table_iff]
  cases s.texts sources with
  | error fault => simp
  | ok texts => simp

/-! ## How a run ends -/

/-- Without a table there is no run. -/
theorem run_of_table_error (hrows : s.rows = .none) {fault : Fault}
    (htable : s.table sources = .error fault) (solver : Solver) :
    ∃ report, s.run solver sources = .ok ⟨1, ⟨"", report⟩⟩ := by
  obtain ⟨report, hending⟩ := Ending.ofSession_error
    ((prints_outcome (.error fault)).bind_error (s.runOn solver)) s.verbose
  simp only [run, hrows, htable]
  exact ⟨_, congrArg Except.ok hending⟩

/-- Without a format there is nothing to print. -/
theorem run_of_table_unusable (hrows : s.rows = .none) (htable : s.table sources = .ok table)
    (hformat : s.format = .unusable) (solver : Solver) :
    ∃ report, s.run solver sources = .ok ⟨1, ⟨"", report⟩⟩ := by
  obtain ⟨report, hending⟩ := Ending.ofSession_error
    (Prints.bind_outcome (prints_runOn_unusable hformat solver table)) s.verbose
  simp only [run, hrows, htable]
  exact ⟨_, congrArg Except.ok hending⟩

/-- A run that has printed its results ends well. -/
theorem run_of_table (hrows : s.rows = .none) (htable : s.table sources = .ok table)
    {output errors : String} (h : (s.runOn solver table).Prints output errors (.ok true)) :
    s.run solver sources = .ok ⟨0, ⟨output, errors⟩⟩ := by
  simp only [run, hrows, htable]
  exact congrArg Except.ok (Ending.ofSession_ok h.bind_outcome s.verbose)

/-- Every run ends, with code `1` and nothing on the standard output if there is no table or no
    format, and with code `0` otherwise. -/
theorem exists_run_eq (hsolver : solver.Exact) (hrows : s.rows = .none) (sources : Sources) :
    ∃ code output errors, s.run solver sources = .ok ⟨code, ⟨output, errors⟩⟩ ∧
      (((¬ ∃ table, s.table sources = .ok table) ∨ s.format = .unusable) ∧ code = 1 ∧ output = "" ∨
        ((∃ table, s.table sources = .ok table) ∧ s.format ≠ .unusable) ∧ code = 0) := by
  cases htable : s.table sources with
  | error fault =>
    obtain ⟨report, hrun⟩ := run_of_table_error hrows htable solver
    refine ⟨1, "", report, hrun, .inl ⟨.inl ?_, rfl, rfl⟩⟩
    rintro ⟨table, h⟩
    cases h
  | ok table =>
    by_cases hformat : s.format = .unusable
    · obtain ⟨report, hrun⟩ := run_of_table_unusable hrows htable hformat solver
      exact ⟨1, "", report, hrun, .inl ⟨.inr hformat, rfl, rfl⟩⟩
    · obtain ⟨output, errors, hprints⟩ := exists_prints_runOn hsolver hformat table
      exact ⟨0, output, errors, run_of_table hrows htable hprints,
        .inr ⟨⟨⟨table, rfl⟩, hformat⟩, rfl⟩⟩

end Settings

theorem runCommand_eq {arguments : List String} {s : Settings}
    (h : Settings.ofArguments arguments = .ok s) (solver : Solver) (sources : Sources) :
    runCommand solver sources arguments = s.run solver sources := by
  rw [runCommand, h]

/-- **The exit code**: with a solver that can be relied on, every command line that asks for a
    search is run to its end.  The exit code is `1` exactly if the cells cannot be read, or their
    number is no power of two, or the format has been left without a value, and then nothing is on
    the standard output; otherwise it is `0`.  Given a table and a format, no stage fails and the
    verification, if there is one, passes.  A format is left without a value only where an argument
    ends in the separator. -/
theorem exit_code_eq_one_iff {solver : Solver} (hsolver : solver.Exact) {arguments : List String}
    {s : Settings} (hsettings : Settings.ofArguments arguments = .ok s) (hrows : s.rows = .none)
    (sources : Sources) :
    (∃ ending, runCommand solver sources arguments = .ok ending ∧
      (ending.code = 1 ↔ (∃ fault, s.texts sources = .error fault) ∨
        (∃ texts, s.texts sources = .ok texts ∧ ∀ n, texts.length ≠ 2 ^ n) ∨
        s.format = .unusable) ∧
      (ending.code = 1 → ending.console.output = "") ∧
      (ending.code = 1 ∨ ending.code = 0)) ∧
    (s.format ≠ .unusable → ∀ table, s.table sources = .ok table →
      ∃ output errors, (s.runOn solver table).Prints output errors (.ok true)) ∧
    (s.format = .unusable → ∃ argument ∈ arguments, Word.EndsInSeparator argument) := by
  obtain ⟨code, output, errors, hrun, hends⟩ := Settings.exists_run_eq hsolver hrows sources
  refine ⟨⟨_, (runCommand_eq hsettings solver sources).trans hrun, ?_, ?_, ?_⟩, ?_, ?_⟩
  · rw [← or_assoc, ← Settings.not_exists_table_iff]
    rcases hends with ⟨hfails, rfl, -⟩ | ⟨⟨htable, hformat⟩, rfl⟩
    · exact iff_of_true rfl hfails
    · refine iff_of_false Nat.zero_ne_one ?_
      rintro (hnone | hunusable)
      · exact hnone htable
      · exact hformat hunusable
  · intro hcode
    rcases hends with ⟨-, -, hempty⟩ | ⟨-, rfl⟩
    · exact hempty
    · cases hcode
  · exact hends.imp (fun h => h.2.1) fun h => h.2
  · intro hformat table _
    exact Settings.exists_prints_runOn hsolver hformat table
  · intro hunusable
    exact Settings.exists_argument_of_not_isValued hsettings fun hvalued =>
      hvalued.format hunusable

/-- Four cells with a free one are searched, listed and verified without a fault. -/
theorem exit_code_eq_one_iff_four_cells :
    let sources : Sources := ⟨fun path => .error (.missingFile path), .ok []⟩
    let arguments := ["A", "B", "B", "x", "--dont-care", "x", "--all", "-v", "--verify"]
    let s : Settings :=
      { Settings.default with
        cells := ["A", "B", "B", "x"], marker := some "x", all := true, verbose := true,
        verify := true }
    Formula.splitSolver.Exact ∧ Settings.ofArguments arguments = .ok s ∧ s.rows = .none ∧
      ∃ ending, runCommand Formula.splitSolver sources arguments = .ok ending ∧
        ending.code = 0 := by
  intro sources arguments s
  have hsettings : Settings.ofArguments arguments = .ok s := by cbv
  obtain ⟨⟨ending, hrun, hone, -, hcode⟩, -⟩ :=
    exit_code_eq_one_iff Formula.exact_splitSolver hsettings rfl sources
  refine ⟨Formula.exact_splitSolver, hsettings, rfl, ending, hrun, hcode.resolve_left ?_⟩
  rw [hone]
  rintro (⟨fault, htexts⟩ | ⟨texts, htexts, hlength⟩ | hformat)
  · cases htexts
  · obtain rfl := Except.ok.inj htexts
    exact hlength 2 rfl
  · cases hformat

/-- A value `--` attached to the option for the format is dropped as a separator, and the run fails
    although there is a table. -/
theorem exit_code_one_beside_table :
    let sources : Sources := ⟨fun path => .error (.missingFile path), .ok []⟩
    let arguments := ["A", "--format=--"]
    ∃ s ending, Settings.ofArguments arguments = .ok s ∧ s.rows = .none ∧
      runCommand Formula.splitSolver sources arguments = .ok ending ∧
      ¬ (ending.code = 1 ↔ (∃ fault, s.texts sources = .error fault) ∨
        ∃ texts, s.texts sources = .ok texts ∧ ∀ n, texts.length ≠ 2 ^ n) := by
  intro sources arguments
  let s : Settings := { Settings.default with cells := ["A"], format := .unusable }
  have hsettings : Settings.ofArguments arguments = .ok s := by cbv
  have htable : ∃ table, s.table sources = .ok table :=
    Settings.exists_table_iff.mpr ⟨["A"], rfl, 0, rfl⟩
  obtain ⟨table, hsome⟩ := htable
  obtain ⟨report, hrun⟩ :=
    Settings.run_of_table_unusable (s := s) rfl hsome rfl Formula.splitSolver
  refine ⟨s, _, hsettings, rfl, (runCommand_eq hsettings _ sources).trans hrun, fun hone => ?_⟩
  exact Settings.not_exists_table_iff.mpr (hone.mp rfl) ⟨table, hsome⟩

end Dichotomy
