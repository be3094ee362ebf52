import Dichotomy.Proofs.DistinctRenderings
import Dichotomy.Proofs.ExhaustiveSearch
import Dichotomy.Proofs.Sessions
import Dichotomy.Proofs.StoredDiagrams
import Dichotomy.Proofs.Verdict

/-!
# The stages of a run

Once there is a table, every stage of a run succeeds: the search, the summary or the renderings, and
the verification, which passes all of the best candidates.  What a run prints on the standard output
is complete when the verification begins, unless the verification goes there as well.

## Main statements

- `Table.gives_searchAloud`, `Table.gives_sayAll`: the search and its summary.
- `Table.gives_verification`: the best candidates pass.
- `ExportFormat.exists_renders`, `Settings.exists_prints_exported`: which renderings are printed.
- `Settings.prints_runOn`: the verification behind the results.
-/

namespace Dichotomy

open Transcript

/-! ## Tables -/

namespace Table

variable {table : Table} {c : Candidate}

/-- The report of the search. -/
def report (table : Table) : Report := ⟨table.inputs, table.found⟩

theorem search_eq_report (table : Table) : table.search = .ok table.report := table.search_eq

theorem mem_found_of_mem_optimal (h : c ∈ table.report.optimal) : c ∈ table.found :=
  (leastScored_sublist _).subset h

/-- All candidates have orders that can be written. -/
theorem exists_joined_order (names : Names) (between : String) (h : c ∈ table.found) :
    ∃ text, names.joined between c.order = .ok text :=
  exists_joined names between fun _ hvar =>
    (mem_inputNumbers.mp ((eq_root_of_mem_found h).1.subset hvar)).1

/-! ## The search and its summary -/

theorem gives_searchAloud (table : Table) (verbose : Bool) :
    (table.searchAloud verbose).Gives (.ok table.report) := by
  cases verbose with
  | false =>
    rw [searchAloud, if_neg Bool.false_ne_true, search_eq_report]
    exact gives_outcome _
  | true =>
    obtain ⟨least, hleast, -⟩ := table.exists_leastScore
    have hcandidates : (table.candidatesAloud true).Gives (.ok table.found) := by
      rw [candidatesAloud, candidates_eq]
      exact (gives_outcome _).bind ((Gives.forM fun c _ => gives_say _).bind (gives_pure _))
    have hscore : (outcome table.report.leastScore).Gives (.ok least) := by
      rw [report, hleast]
      exact gives_outcome _
    rw [searchAloud, if_pos rfl]
    exact (gives_say _).bind (hcandidates.bind (hscore.bind ((gives_say _).bind (gives_pure _))))

theorem exists_summaryLine (names : Names) (least : Int) (h : c ∈ table.found) :
    ∃ line, c.summaryLine names least = .ok line := by
  obtain ⟨order, horder⟩ := exists_joined_order names " -> " h
  rw [Candidate.summaryLine, Candidate.orderText, horder]
  exact ⟨_, rfl⟩

theorem gives_sayAll (table : Table) (names : Names) (all : Bool) :
    (table.report.sayAll names all).Gives (.ok ()) := by
  obtain ⟨least, hleast, -⟩ := table.exists_leastScore
  have hshown : ∀ c ∈ if all then table.report.candidates else table.report.optimal,
      c ∈ table.found := by
    intro c hc
    cases all with
    | false => exact mem_found_of_mem_optimal hc
    | true => exact hc
  rw [Report.sayAll]
  refine (gives_say _).bind ((gives_say _).bind ((gives_say _).bind ((gives_say _).bind ?_)))
  rw [report, hleast]
  refine (gives_outcome _).bind ((gives_say _).bind ((gives_say _).bind ((gives_say _).bind ?_)))
  refine .forM fun c hc => ?_
  obtain ⟨line, hline⟩ := exists_summaryLine names least (hshown c hc)
  rw [hline]
  exact (gives_outcome _).bind (gives_say _)

/-! ## The verification -/

/-- The best candidates pass the verification. -/
theorem gives_verification {solver : Solver} (hsolver : solver.Exact) (table : Table)
    (names : Names) :
    (Verification.sayAll solver table.report.optimal table.cells names).Gives (.ok true) := by
  have htests : ∀ c ∈ table.report.optimal, ∀ var ∈ c.root.tests,
      var ∈ inputNumbers table.inputs := by
    intro c hc var hvar
    obtain ⟨horder, hroot, -⟩ := eq_root_of_mem_found (mem_found_of_mem_optimal hc)
    rw [hroot] at hvar
    exact tests_root_subset horder hvar
  have hpassed : ∀ c ∈ table.report.optimal, c.root.mismatches table.cells = .ok [] := by
    intro c hc
    obtain ⟨horder, hroot, -⟩ := eq_root_of_mem_found (mem_found_of_mem_optimal hc)
    refine (Diagram.mismatches_eq_nil_iff table.length_cells (htests c hc)).mpr
      fun row text hcell => ?_
    rw [hroot]
    exact eval_build_of_literal horder (build_eq_root horder) hcell
  obtain ⟨correct, verdict, report, hsays, hcorrect, -⟩ :=
    Verification.exists_says_sayAll hsolver table.length_cells htests fun c hc =>
      exists_joined_order names ", " (mem_found_of_mem_optimal hc)
  rw [hcorrect.mpr hpassed] at hsays
  exact ⟨_, hsays⟩

end Table

/-! ## Renderings -/

/-- Some texts are the renderings of some candidates: all of these have a body, one candidate is
    kept for each body, and its number completes the text. -/
def ExportFormat.Renders (format : ExportFormat) (name : String) (names : List String)
    (candidates : List Candidate) (texts : List String) : Prop :=
  ∃ (body : Candidate → String) (kept : List Candidate),
    (∀ c ∈ candidates, format.body name names c.root = .ok (body c)) ∧
      KeepsFirst Candidate.id body candidates kept ∧
      texts = kept.map fun c => format.complete name names c.id (body c)

/-- Candidates of a search are rendered in every format. -/
theorem ExportFormat.exists_renders (format : ExportFormat) (name : String) (names : List String)
    {table : Table} {candidates : List Candidate} (h : ∀ c ∈ candidates, c ∈ table.found) :
    ∃ texts, format.renderings candidates name names = .ok texts ∧
      format.Renders name names candidates texts := by
  have hbodies : ∀ c ∈ candidates, ∃ body, format.body name names c.root = .ok body := by
    intro c hc
    obtain ⟨horder, hroot, -⟩ := Table.eq_root_of_mem_found (h c hc)
    rw [hroot]
    exact format.exists_body_root name names horder
  choose! body hbody using hbodies
  obtain ⟨kept, hrenderings, hkeeps⟩ := format.exists_renderings name names hbody
  exact ⟨_, hrenderings, body, kept, hbody, hkeeps, rfl⟩

namespace Settings

open Session

variable {s : Settings} {solver : Solver} {table : Table}

/-! ## The results -/

theorem mem_found_of_mem_chosen {c : Candidate} (h : c ∈ s.chosen table.report) :
    c ∈ table.found := by
  rw [chosen] at h
  split at h
  · exact h
  · exact Table.mem_found_of_mem_optimal h

theorem gives_sayHeading (table : Table) : (sayHeading table).Gives (.ok ()) :=
  (gives_say _).bind ((gives_say _).bind ((gives_say _).bind (gives_say _)))

theorem exists_prints_summary (hformat : s.format = .summary) (table : Table) :
    ∃ output, (s.printResults table).Prints output "" (.ok table.report) := by
  obtain ⟨heading, hheading⟩ := gives_sayHeading table
  obtain ⟨progress, hprogress⟩ := table.gives_searchAloud s.verbose
  obtain ⟨summary, hsummary⟩ := table.gives_sayAll (.given s.inputNames) s.all
  simp only [printResults, hformat]
  exact ⟨_, (prints_relay (prints_write heading) hheading).bind_output
    ((prints_relay (prints_write progress) hprogress).bind_output
      ((prints_relay (prints_write summary) hsummary).bind_pure fun _ => table.report))⟩

/-- With an export format, the renderings of the chosen candidates are printed, and nothing else. -/
theorem exists_prints_exported {format : ExportFormat} (hformat : s.format = .exported format)
    (table : Table) :
    ∃ texts, format.renderings (s.chosen table.report) (s.nameFor format) s.inputNames =
        .ok texts ∧
      format.Renders (s.nameFor format) s.inputNames (s.chosen table.report) texts ∧
      (s.printResults table).Prints ("\n\n".intercalate texts ++ "\n") "" (.ok table.report) := by
  obtain ⟨texts, hrenderings, hrenders⟩ := format.exists_renders (s.nameFor format)
    s.inputNames fun c hc => mem_found_of_mem_chosen hc
  refine ⟨texts, hrenderings, hrenders, ?_⟩
  simp only [printResults, hformat, table.search_eq_report]
  refine .bind_outcome ?_
  rw [hrenderings]
  exact .bind_outcome ((prints_write _).bind_pure fun _ => table.report)

theorem exists_prints_results (hformat : s.format ≠ .unusable) (table : Table) :
    ∃ output, (s.printResults table).Prints output "" (.ok table.report) := by
  cases h : s.format with
  | summary => exact exists_prints_summary h table
  | exported format =>
    obtain ⟨texts, -, -, hprints⟩ := exists_prints_exported h table
    exact ⟨_, hprints⟩
  | unusable => exact absurd h hformat

/-! ## All stages -/

/-- The verification ends well behind the results, and goes to the standard output only behind a
    summary. -/
theorem prints_runOn (hsolver : solver.Exact) {output : String}
    (h : (s.printResults table).Prints output "" (.ok table.report)) :
    ∃ more errors, (s.runOn solver table).Prints (output ++ more) errors (.ok true) ∧
      (s.format ≠ .summary → more = "") := by
  cases hverify : s.verify with
  | false =>
    simp only [runOn, hverify]
    exact ⟨"", _, h.bind (prints_pure true), fun _ => rfl⟩
  | true =>
    obtain ⟨text, htext⟩ := table.gives_verification hsolver (.given s.inputNames)
    simp only [runOn, hverify]
    cases hformat : s.format with
    | summary =>
      have hprint : s.printVerification = write := by rw [printVerification, hformat]
      rw [hprint]
      exact ⟨_, _, h.bind ((prints_write _).bind (prints_relay (prints_write _) htext)),
        fun hne => absurd rfl hne⟩
    | exported _ | unusable =>
      have hprint : s.printVerification = writeError := by rw [printVerification, hformat]
      rw [hprint]
      exact ⟨_, _, h.bind ((prints_writeError _).bind (prints_relay (prints_writeError _) htext)),
        fun _ => rfl⟩

/-- With a format, every table is run on to the end. -/
theorem exists_prints_runOn (hsolver : solver.Exact) (hformat : s.format ≠ .unusable)
    (table : Table) :
    ∃ output errors, (s.runOn solver table).Prints output errors (.ok true) := by
  obtain ⟨output, hresults⟩ := exists_prints_results hformat table
  obtain ⟨more, errors, hprints, -⟩ := prints_runOn hsolver hresults
  exact ⟨_, errors, hprints⟩

/-- Without a usable format the search is in vain. -/
theorem prints_runOn_unusable (hformat : s.format = .unusable) (solver : Solver) (table : Table) :
    (s.runOn solver table).Prints "" "" (.error .unusableFormat) := by
  rw [runOn]
  refine Prints.bind_error ?_ _
  simp only [printResults, hformat, table.search_eq_report]
  exact .bind_outcome (prints_throw _)

end Settings

end Dichotomy
