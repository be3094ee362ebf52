import Dichotomy.Proofs.ExitCode

/-!
# Diagnostics beside exported code

Whoever reads exported code from the standard output need not care whether progress is reported or
the results are verified: neither changes what is printed there, nor the exit code.  What is printed
there is the renderings of the chosen candidates, and nothing else.

## Main statements

- `Settings.visible_run_exported`: what an export shows.
- `Settings.visible_run_withDiagnostics`: runs with other diagnostics.
- `exported_output_undisturbed`: the same for command lines.
-/

namespace Dichotomy

/-- What an ending shows apart from the error output. -/
def Ending.visible (ending : Ending) : Nat × String := (ending.code, ending.console.output)

namespace Settings

/-- The same settings but for the verification and the report of the progress. -/
def withDiagnostics (s : Settings) (verify verbose : Bool) : Settings :=
  { s with verify := verify, verbose := verbose }

variable {s : Settings} {sources : Sources} {solver : Solver} {table : Table}
  {format : ExportFormat} {output : String}

/-! ## What a run shows -/

theorem visible_run_of_table_error (hrows : s.rows = .none) {fault : Fault}
    (htable : s.table sources = .error fault) (solver : Solver) :
    (s.run solver sources).map Ending.visible = .ok (1, "") := by
  obtain ⟨report, hrun⟩ := run_of_table_error hrows htable solver
  rw [hrun]
  rfl

/-- Without a summary, only the results are seen. -/
theorem visible_run_of_table (hsolver : solver.Exact) (hrows : s.rows = .none)
    (htable : s.table sources = .ok table) (hformat : s.format ≠ .summary)
    (h : (s.printResults table).Prints output "" (.ok table.report)) :
    (s.run solver sources).map Ending.visible = .ok (0, output) := by
  obtain ⟨more, errors, hprints, hmore⟩ := prints_runOn hsolver h
  rw [hmore hformat, String.append_empty] at hprints
  rw [run_of_table hrows htable hprints]
  rfl

/-- An export shows the renderings of the chosen candidates. -/
theorem visible_run_exported (hsolver : solver.Exact) (hrows : s.rows = .none)
    (hformat : s.format = .exported format) (htable : s.table sources = .ok table) :
    ∃ texts, format.renderings (s.chosen table.report) (s.nameFor format) s.inputNames =
        .ok texts ∧
      format.Renders (s.nameFor format) s.inputNames (s.chosen table.report) texts ∧
      (s.run solver sources).map Ending.visible =
        .ok (0, "\n\n".intercalate texts ++ "\n") := by
  obtain ⟨texts, hrenderings, hrenders, hprints⟩ := exists_prints_exported hformat table
  have hsummary : s.format ≠ .summary := by
    rw [hformat]
    exact nofun
  exact ⟨texts, hrenderings, hrenders,
    visible_run_of_table hsolver hrows htable hsummary hprints⟩

/-! ## Other diagnostics -/

/-- Exported code is the same with other diagnostics. -/
theorem printResults_withDiagnostics (hformat : s.format = .exported format)
    (verify verbose : Bool) (table : Table) :
    (s.withDiagnostics verify verbose).printResults table = s.printResults table := by
  simp only [printResults, withDiagnostics, hformat]
  rfl

/-- Rows are printed without looking at the diagnostics. -/
theorem run_withDiagnostics_of_rows (hrows : s.rows ≠ .none) (verify verbose : Bool) :
    (s.withDiagnostics verify verbose).run solver sources = s.run solver sources := by
  simp only [run, withDiagnostics]
  rcases h : s.rows with _ | inputs | _
  · exact absurd h hrows
  · rfl
  · rfl

/-- Diagnostics leave no mark on what an export shows. -/
theorem visible_run_withDiagnostics (hsolver : solver.Exact) (hformat : s.format = .exported format)
    (verify verbose : Bool) :
    ((s.withDiagnostics verify verbose).run solver sources).map Ending.visible =
      (s.run solver sources).map Ending.visible := by
  by_cases hrows : s.rows = .none
  · -- Nothing else of the settings differs.
    have hrows' : (s.withDiagnostics verify verbose).rows = .none := hrows
    have htable' : (s.withDiagnostics verify verbose).table sources = s.table sources := rfl
    cases htable : s.table sources with
    | error fault =>
      rw [htable] at htable'
      rw [visible_run_of_table_error hrows htable, visible_run_of_table_error hrows' htable']
    | ok table =>
      rw [htable] at htable'
      have hsummary : s.format ≠ .summary := by
        rw [hformat]
        exact nofun
      have hresults := printResults_withDiagnostics hformat verify verbose table
      obtain ⟨texts, -, -, hprints⟩ := exists_prints_exported hformat table
      rw [visible_run_of_table hsolver hrows htable hsummary hprints,
        visible_run_of_table hsolver hrows' htable' hsummary (hresults ▸ hprints)]
  · rw [run_withDiagnostics_of_rows hrows]

end Settings

/-- **Diagnostics do not disturb exported code**: with a solver that can be relied on, two command
    lines that ask for the same export and differ in the verification and the report of the progress
    only have the same exit code and the same standard output.  If a search succeeds, that output
    is the renderings of the chosen candidates, with blank lines between them, and one line
    break. -/
theorem exported_output_undisturbed {solver : Solver} (hsolver : solver.Exact)
    {arguments arguments' : List String} {s : Settings} {format : ExportFormat}
    {verify verbose : Bool} (hsettings : Settings.ofArguments arguments = .ok s)
    (hsettings' : Settings.ofArguments arguments' = .ok (s.withDiagnostics verify verbose))
    (hformat : s.format = .exported format) (sources : Sources) :
    (runCommand solver sources arguments).map Ending.visible =
        (runCommand solver sources arguments').map Ending.visible ∧
      (s.rows = .none → ∀ ending, runCommand solver sources arguments = .ok ending →
        ending.code = 0 → ∃ table report texts, s.table sources = .ok table ∧
          table.search = .ok report ∧
          format.renderings (s.chosen report) (s.nameFor format) s.inputNames = .ok texts ∧
          format.Renders (s.nameFor format) s.inputNames (s.chosen report) texts ∧
          ending.console.output = "\n\n".intercalate texts ++ "\n") := by
  rw [runCommand_eq hsettings, runCommand_eq hsettings']
  refine ⟨(Settings.visible_run_withDiagnostics hsolver hformat verify verbose).symm, ?_⟩
  intro hrows ending hrun hcode
  cases htable : s.table sources with
  | error fault =>
    have hvisible := Settings.visible_run_of_table_error hrows htable solver
    rw [hrun] at hvisible
    have hone : ending.code = 1 := congrArg Prod.fst (Except.ok.inj hvisible)
    rw [hcode] at hone
    cases hone
  | ok table =>
    obtain ⟨texts, hrenderings, hrenders, hvisible⟩ :=
      Settings.visible_run_exported hsolver hrows hformat htable
    rw [hrun] at hvisible
    exact ⟨table, table.report, texts, rfl, table.search_eq_report, hrenderings, hrenders,
      congrArg Prod.snd (Except.ok.inj hvisible)⟩

/-- The verification and the progress of a search over one input do not show beside its function. -/
theorem exported_output_undisturbed_one_input :
    let sources : Sources := ⟨fun path => .error (.missingFile path), .ok []⟩
    let plain : Settings :=
      { Settings.default with cells := ["A", "B"], format := .exported .javaScript }
    Formula.splitSolver.Exact ∧ Settings.ofArguments ["A", "B", "-f", "js"] = .ok plain ∧
      Settings.ofArguments ["-vfjs", "A", "B", "--verify"] =
        .ok (plain.withDiagnostics true true) ∧
      plain.format = .exported .javaScript ∧ plain.rows = .none ∧
      ∃ output texts,
        (runCommand Formula.splitSolver sources ["A", "B", "-f", "js"]).map Ending.visible =
          .ok (0, output) ∧
        (runCommand Formula.splitSolver sources ["-vfjs", "A", "B", "--verify"]).map
          Ending.visible = .ok (0, output) ∧
        output = "\n\n".intercalate texts ++ "\n" := by
  intro sources plain
  have hsettings : Settings.ofArguments ["A", "B", "-f", "js"] = .ok plain := by cbv
  have hsettings' : Settings.ofArguments ["-vfjs", "A", "B", "--verify"] =
      .ok (plain.withDiagnostics true true) := by cbv
  obtain ⟨hsame, hprinted⟩ :=
    exported_output_undisturbed Formula.exact_splitSolver hsettings hsettings' rfl sources
  have htable : ∃ table, plain.table sources = .ok table :=
    Settings.exists_table_iff.mpr ⟨["A", "B"], rfl, 1, rfl⟩
  obtain ⟨code, output, errors, hrun, ⟨hfails, -⟩ | ⟨-, rfl⟩⟩ :=
    Settings.exists_run_eq (s := plain) Formula.exact_splitSolver rfl sources
  · rcases hfails with hnone | hformat
    · exact absurd htable hnone
    · cases hformat
  · rw [← runCommand_eq hsettings] at hrun
    obtain ⟨-, -, texts, -, -, -, -, houtput⟩ := hprinted rfl _ hrun rfl
    rw [hrun] at hsame
    exact ⟨Formula.exact_splitSolver, hsettings, hsettings', rfl, rfl, output, texts,
      congrArg (Except.map Ending.visible) hrun, hsame.symm, houtput⟩

end Dichotomy
