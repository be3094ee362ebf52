import Dichotomy.Check.Verification
import Dichotomy.Proofs.DifferenceSearch
import Dichotomy.Proofs.Phrases
import Dichotomy.Proofs.TableSize
import Dichotomy.Proofs.Transcripts

/-!
# The verdict on some candidates

Candidates are checked against the table row by row, and then the first one is compared with each
of the others by a solver, outside the free rows.  The comparison cannot overrule the check: where
two diagrams give different literals on a row with a literal, one of them has failed that row.

## Main statements

- `Diagram.exists_mismatches`: which rows a diagram fails.
- `Verification.exists_row_of_sought`: what is found by the comparison has failed the check.
- `Verification.sayAll_exact`: the verdict is that of the check, and what is printed.
-/

namespace Dichotomy

/-! ## The check -/

namespace Diagram

variable {ι : Type} {d : Diagram ι} {n : Nat} {outputs : List Cell}

/-- Every row of a table covers a diagram that tests inputs only. -/
theorem covers_ofRow (htests : ∀ var ∈ d.tests, var ∈ inputNumbers n) (row : Nat) :
    Assignment.Covers (Assignment.ofRow n row) d := by
  intro var hvar
  rw [Assignment.length_ofRow]
  exact htests var hvar

/-- The check of one row that the diagram answers. -/
theorem ofRow?_eq {row : Nat} {expected found : Cell}
    (hfound : d.eval (Assignment.ofRow n row) = .ok found) :
    Mismatch.ofRow? d n expected row =
      .ok (if expected.isFree ∨ found = expected then none
        else some ⟨row, Assignment.ofRow n row, expected, found⟩) := by
  have hanswer : d.answer (Assignment.ofRow n row) = .ok found := by rw [answer, hfound]
  cases expected with
  | dontCare => rfl
  | literal text =>
    simp [Mismatch.ofRow?, hanswer, Cell.isFree, bind, Except.bind, pure, Except.pure]

/-- **The check** succeeds for a diagram that tests inputs only, and lists the rows whose cell is a
    literal and on which the diagram gives something else. -/
theorem exists_mismatches (hlength : outputs.length = rowCount n)
    (htests : ∀ var ∈ d.tests, var ∈ inputNumbers n) :
    ∃ errors, d.mismatches outputs = .ok errors ∧
      ∀ m, m ∈ errors ↔ m.assignment = Assignment.ofRow n m.row ∧
        outputs[m.row]? = some m.expected ∧ m.expected.isFree = false ∧
        d.eval m.assignment = .ok m.found ∧ m.found ≠ m.expected := by
  choose found hfound using fun row : Nat => exists_eval (covers_ofRow htests row)
  -- Each cell comes with the number of its row.
  let check : Cell × Nat → Option Mismatch := fun entry =>
    if entry.1.isFree ∨ found entry.2 = entry.1 then none
    else some ⟨entry.2, Assignment.ofRow n entry.2, entry.1, found entry.2⟩
  have hrows : outputs.zipIdx.mapM (fun entry => Mismatch.ofRow? d n entry.1 entry.2) =
      .ok (outputs.zipIdx.map check) :=
    mapM_eq_ok fun entry _ => ofRow?_eq (hfound entry.2)
  refine ⟨(outputs.zipIdx.map check).filterMap id, ?_, fun m => ?_⟩
  · rw [mismatches, hlength, inputCount_rowCount]
    show (outputs.zipIdx.mapM fun entry => Mismatch.ofRow? d n entry.1 entry.2) >>= _ = _
    rw [hrows]
    rfl
  · rw [List.filterMap_map, List.mem_filterMap]
    constructor
    · rintro ⟨⟨expected, row⟩, hmem, hm⟩
      have hcell := List.mem_zipIdx_iff_getElem?.mp hmem
      simp only [Function.comp_apply, id, check] at hm
      split at hm
      next => cases hm
      next hne =>
        obtain rfl := Option.some.inj hm
        rw [not_or, Bool.not_eq_true] at hne
        exact ⟨rfl, hcell, hne.1, hfound row, hne.2⟩
    · rintro ⟨hassignment, hcell, hdemand, heval, hne⟩
      refine ⟨(m.expected, m.row), List.mem_zipIdx_iff_getElem?.mpr hcell, ?_⟩
      have hsame : found m.row = m.found := by
        rw [hassignment, hfound] at heval
        exact Except.ok.inj heval
      have hmismatch : ¬ (m.expected.isFree ∨ found m.row = m.expected) := by
        rw [hsame, hdemand, not_or]
        exact ⟨Bool.false_ne_true, hne⟩
      simp only [Function.comp_apply, id, check]
      rw [if_neg hmismatch, hsame, ← hassignment]

/-- A diagram passes the check exactly when it gives the literal of every row that has one. -/
theorem mismatches_eq_nil_iff (hlength : outputs.length = rowCount n)
    (htests : ∀ var ∈ d.tests, var ∈ inputNumbers n) :
    d.mismatches outputs = .ok [] ↔
      ∀ (row : Nat) (text : String), outputs[row]? = some (.literal text) →
        d.eval (Assignment.ofRow n row) = .ok (.literal text) := by
  obtain ⟨errors, herrors, hmem⟩ := exists_mismatches hlength htests
  rw [herrors, Except.ok.injEq, List.eq_nil_iff_forall_not_mem]
  constructor
  · intro hnone row text hcell
    obtain ⟨found, hfound⟩ := exists_eval (covers_ofRow htests row)
    by_contra hne
    refine hnone ⟨row, Assignment.ofRow n row, .literal text, found⟩ ((hmem _).mpr ?_)
    exact ⟨rfl, hcell, rfl, hfound, fun hsame => hne (hfound.trans (congrArg Except.ok hsame))⟩
  · intro hall m hm
    obtain ⟨hassignment, hcell, hdemand, heval, hne⟩ := (hmem m).mp hm
    cases hexpected : m.expected with
    | dontCare =>
      rw [hexpected] at hdemand
      cases hdemand
    | literal text =>
      have hanswer := hall m.row text (hexpected ▸ hcell)
      rw [← hassignment, heval] at hanswer
      exact hne ((Except.ok.inj hanswer).trans hexpected.symm)

end Diagram

namespace Verification

open Transcript

/-! ## The comparison -/

section Comparison

variable {ι κ : Type} {first : Diagram ι} {second : Diagram κ} {n : Nat} {outputs : List Cell}

theorem mem_freeRows {a : Assignment} :
    a ∈ freeRows n outputs ↔
      ∃ row : Nat, outputs[row]? = some .dontCare ∧ a = Assignment.ofRow n row := by
  simp only [freeRows, List.mem_filterMap, Prod.exists, List.mem_zipIdx_iff_getElem?]
  constructor
  · rintro ⟨cell, row, hcell, ha⟩
    cases cell with
    | literal text => cases ha
    | dontCare => exact ⟨row, hcell, (Option.some.inj ha).symm⟩
  · rintro ⟨row, hcell, rfl⟩
    exact ⟨.dontCare, row, hcell, rfl⟩

theorem length_le_of_mem_freeRows {a : Assignment} (h : a ∈ freeRows n outputs) : a.length ≤ n := by
  obtain ⟨row, -, rfl⟩ := mem_freeRows.mp h
  exact Nat.le_of_eq (Assignment.length_ofRow n row)

/-- What the comparison looks for is a row with a literal that one of the diagrams does not
    give. -/
theorem exists_row_of_sought (hlength : outputs.length = rowCount n) {a : Assignment}
    (h : Difference.Sought first second n (freeRows n outputs) a) :
    ∃ (row : Nat) (text : String), a = Assignment.ofRow n row ∧
      outputs[row]? = some (.literal text) ∧
      (first.eval a ≠ .ok (.literal text) ∨ second.eval a ≠ .ok (.literal text)) := by
  have hrow : a = Assignment.ofRow n a.row := (Assignment.ofRow_row_of_length h.length).symm
  have hlt : a.row < outputs.length := hlength ▸ Assignment.row_lt_of_length h.length
  cases hcell : outputs[a.row]? with
  | none => exact absurd (List.getElem?_eq_none_iff.mp hcell) (Nat.not_le.mpr hlt)
  | some cell =>
    cases cell with
    | dontCare =>
      -- Free rows are excluded.
      exact absurd (List.prefix_refl a)
        (h.notExcluded a (mem_freeRows.mpr ⟨a.row, hcell, hrow⟩))
    | literal text =>
      refine ⟨a.row, text, hrow, hcell, ?_⟩
      obtain ⟨found, found', heval, heval', hne⟩ := h.distinguishes
      by_contra hboth
      rw [not_or, not_not, not_not, heval, heval'] at hboth
      have hsame := hboth.1.trans hboth.2.symm
      exact hne (Cell.literal.inj (Except.ok.inj hsame))

end Comparison

/-! ## What is printed -/

/-- The lines above all verdicts. -/
def heading : String := "Verification\n" ++ (rule 60 '=' ++ "\n")

/-- The lines for one candidate: its number, its order, the verdict and all mismatches. -/
def verdictText (c : Candidate) (order : String) (errors : List Mismatch) : String :=
  "  #" ++ alignLeft 4 (toString c.id) ++ " [" ++ order ++ "] " ++
    (if errors.isEmpty then "PASSED" else "FAILED") ++ "\n" ++
    String.join (errors.map fun m => "      " ++ m.message ++ "\n")

/-- The line that reports a difference. -/
def differenceText (reference c : Candidate) (a : Assignment) : String :=
  "  #" ++ toString reference.id ++ " and #" ++ toString c.id ++ " differ on " ++ a.letters ++ "\n"

/-- The lines below all comparisons. -/
def footing (correct : Bool) : String :=
  rule 60 '-' ++ "\n" ++ ("All correct: " ++ (if correct then "True" else "False") ++ "\n")

variable {solver : Solver} {n : Nat} {outputs : List Cell} {names : Names} {c : Candidate}

theorem says_sayVerdict {errors : List Mismatch} {order : String}
    (herrors : c.root.mismatches outputs = .ok errors)
    (horder : names.joined ", " c.order = .ok order) :
    (sayVerdict outputs names c).Says (verdictText c order errors) (.ok errors.isEmpty) := by
  rw [sayVerdict, herrors, horder]
  refine Says.bind_outcome (Says.bind_outcome ?_)
  exact (says_say _).bind
    ((Says.forM fun m _ => says_say ("      " ++ m.message)).bind_pure fun _ => errors.isEmpty)

/-- Without the text of its order, a candidate has no verdict. -/
theorem says_sayVerdict_error {errors : List Mismatch} {fault : Fault}
    (herrors : c.root.mismatches outputs = .ok errors)
    (horder : names.joined ", " c.order = .error fault) :
    (sayVerdict outputs names c).Says "" (.error fault) := by
  rw [sayVerdict, herrors, horder]
  exact Says.bind_outcome ((says_outcome _).bind_error _)

/-- What may be printed about two candidates: nothing, or that they differ on a row with a literal
    that one of them does not give. -/
def IsReport (n : Nat) (outputs : List Cell) (reference c : Candidate) (report : String) : Prop :=
  report = "" ∨ ∃ (row : Nat) (text : String),
    report = differenceText reference c (Assignment.ofRow n row) ∧
      outputs[row]? = some (.literal text) ∧
      (reference.root.eval (Assignment.ofRow n row) ≠ .ok (.literal text) ∨
        c.root.eval (Assignment.ofRow n row) ≠ .ok (.literal text))

/-- Nothing is printed about two candidates that give all literals. -/
theorem IsReport.eq_empty {reference : Candidate} {report : String}
    (h : IsReport n outputs reference c report)
    (hreference : ∀ (row : Nat) (text : String), outputs[row]? = some (.literal text) →
      reference.root.eval (Assignment.ofRow n row) = .ok (.literal text))
    (hc : ∀ (row : Nat) (text : String), outputs[row]? = some (.literal text) →
      c.root.eval (Assignment.ofRow n row) = .ok (.literal text)) : report = "" := by
  rcases h with h | ⟨row, text, -, hcell, hfails | hfails⟩
  · exact h
  · exact absurd (hreference row text hcell) hfails
  · exact absurd (hc row text hcell) hfails

/-- Comparing two candidates prints nothing exactly if they are found to be the same. -/
theorem exists_says_sayDifference (hsolver : solver.Exact) (hlength : outputs.length = rowCount n)
    {reference : Candidate} (hreference : ∀ var ∈ reference.root.tests, var ∈ inputNumbers n)
    (hc : ∀ var ∈ c.root.tests, var ∈ inputNumbers n) :
    ∃ report same, (sayDifference solver n (freeRows n outputs) reference c).Says report
        (.ok same) ∧
      IsReport n outputs reference c report ∧ (same = true ↔ report = "") := by
  have hlen : ∀ e ∈ freeRows n outputs, e.length ≤ n := fun e he => length_le_of_mem_freeRows he
  obtain ⟨answer, hfind, hsome, -⟩ := Difference.exists_find? hsolver hreference hc hlen
  rw [sayDifference, hfind]
  cases answer with
  | none => exact ⟨"", true, Says.bind_outcome (says_pure true), .inl rfl, by simp⟩
  | some a =>
    obtain ⟨row, text, rfl, hcell, hfails⟩ := exists_row_of_sought hlength (hsome a rfl)
    refine ⟨_, false, Says.bind_outcome ((says_say _).bind_pure fun _ => false),
      .inr ⟨row, text, rfl, hcell, hfails⟩, ?_⟩
    simp

/-- Only the first candidate is compared, with each of the others. -/
theorem exists_says_sayDifferences (hsolver : solver.Exact) (hlength : outputs.length = rowCount n)
    {candidates : List Candidate}
    (htests : ∀ c ∈ candidates, ∀ var ∈ c.root.tests, var ∈ inputNumbers n) :
    ∃ (report : Candidate → String) (same : Candidate → Bool),
      (sayDifferences solver n outputs candidates).Says (String.join (candidates.tail.map report))
        (.ok (candidates.tail.map same)) ∧
      ∀ reference ∈ candidates.head?, ∀ c ∈ candidates.tail,
        IsReport n outputs reference c (report c) ∧ (same c = true ↔ report c = "") := by
  cases candidates with
  | nil => exact ⟨fun _ => "", fun _ => true, says_pure [], by simp⟩
  | cons reference others =>
    have hall : ∀ c ∈ others, ∃ report same,
        (sayDifference solver n (freeRows n outputs) reference c).Says report (.ok same) ∧
          IsReport n outputs reference c report ∧ (same = true ↔ report = "") := fun c hc =>
      exists_says_sayDifference hsolver hlength (htests reference List.mem_cons_self)
        (htests c (List.mem_cons_of_mem _ hc))
    choose! report same hprints hreport using hall
    refine ⟨report, same, Says.mapM hprints, ?_⟩
    rintro _ ⟨⟩ c hc
    exact hreport c hc

/-! ## The verdict -/

section Verdict

variable {candidates : List Candidate}

theorem says_sayAll (hlength : outputs.length = rowCount n) {verdictTexts reports : String}
    {verdicts comparisons : List Bool}
    (hverdicts : (candidates.mapM (sayVerdict outputs names)).Says verdictTexts (.ok verdicts))
    (hcomparisons : (sayDifferences solver n outputs candidates).Says reports (.ok comparisons)) :
    (sayAll solver candidates outputs names).Says
      (heading ++ (verdictTexts ++ (reports ++ footing (verdicts.all id && comparisons.all id))))
      (.ok (verdicts.all id && comparisons.all id)) := by
  rw [sayAll, hlength, inputCount_rowCount, heading, String.append_assoc, String.append_assoc]
  refine Says.bind_outcome ((says_say _).bind ((says_say _).bind ?_))
  refine hverdicts.bind (hcomparisons.bind ?_)
  rw [footing]
  exact (says_say _).bind ((says_say _).bind_pure fun _ => verdicts.all id && comparisons.all id)

theorem says_sayAll_error (hlength : outputs.length = rowCount n) {verdictTexts : String}
    {fault : Fault}
    (hverdicts : (candidates.mapM (sayVerdict outputs names)).Says verdictTexts (.error fault)) :
    (sayAll solver candidates outputs names).Says (heading ++ verdictTexts) (.error fault) := by
  rw [sayAll, hlength, inputCount_rowCount, heading, String.append_assoc, String.append_assoc]
  exact Says.bind_outcome ((says_say _).bind ((says_say _).bind (hverdicts.bind_error _)))

/-- An order whose text cannot be written ends the verification. -/
theorem exists_says_sayAll_error (solver : Solver) (hlength : outputs.length = rowCount n)
    (htests : ∀ c ∈ candidates, ∀ var ∈ c.root.tests, var ∈ inputNumbers n)
    (horder : ∃ c ∈ candidates, ∃ fault, names.joined ", " c.order = .error fault) :
    ∃ printed fault, (sayAll solver candidates outputs names).Says printed (.error fault) := by
  -- Every candidate is checked, but one of them ends with the fault of its order.
  have hverdict : ∀ c ∈ candidates, ∃ text result,
      (sayVerdict outputs names c).Says text result ∧
        ∀ fault, names.joined ", " c.order = .error fault → result = .error fault := by
    intro c hc
    obtain ⟨errors, herrors, -⟩ := Diagram.exists_mismatches hlength (htests c hc)
    cases horder : names.joined ", " c.order with
    | ok order => exact ⟨_, _, says_sayVerdict herrors horder, fun fault h => nomatch h⟩
    | error fault =>
      refine ⟨_, _, says_sayVerdict_error herrors horder, fun fault' h => ?_⟩
      rw [Except.error.inj h]
  choose! text result hprints hresult using hverdict
  obtain ⟨c, hc, fault, hfault⟩ := horder
  obtain ⟨printed, fault, hmap⟩ :=
    exists_says_mapM_error hprints ⟨c, hc, fault, hresult c hc fault hfault⟩
  exact ⟨_, fault, says_sayAll_error hlength hmap⟩

/-- If all orders can be written, there is a verdict: all candidates have to pass the check. -/
theorem exists_says_sayAll (hsolver : solver.Exact) (hlength : outputs.length = rowCount n)
    (htests : ∀ c ∈ candidates, ∀ var ∈ c.root.tests, var ∈ inputNumbers n)
    (horders : ∀ c ∈ candidates, ∃ order, names.joined ", " c.order = .ok order) :
    ∃ (correct : Bool) (verdict report : Candidate → String),
      (sayAll solver candidates outputs names).Says
        (heading ++ (String.join (candidates.map verdict) ++
          (String.join (candidates.tail.map report) ++ footing correct))) (.ok correct) ∧
      (correct = true ↔ ∀ c ∈ candidates, c.root.mismatches outputs = .ok []) ∧
      (∀ c ∈ candidates, ∃ order errors, names.joined ", " c.order = .ok order ∧
        c.root.mismatches outputs = .ok errors ∧ verdict c = verdictText c order errors) ∧
      ∀ reference ∈ candidates.head?, ∀ c ∈ candidates.tail,
        IsReport n outputs reference c (report c) := by
  have hcheck := fun c hc => Diagram.mismatches_eq_nil_iff hlength (htests c hc)
  have hchecked := fun c hc => Diagram.exists_mismatches hlength (htests c hc)
  choose! order horder using horders
  choose! errors herrors hmem using hchecked
  obtain ⟨report, same, hreports, hreport⟩ := exists_says_sayDifferences hsolver hlength htests
  have hverdicts := Says.mapM fun c hc => says_sayVerdict (herrors c hc) (horder c hc)
  refine ⟨_, fun c => verdictText c (order c) (errors c), report,
    says_sayAll hlength hverdicts hreports, ?_,
    fun c hc => ⟨order c, errors c, horder c hc, herrors c hc, rfl⟩,
    fun reference hreference c hc => (hreport reference hreference c hc).1⟩
  -- The verdict on one candidate is whether it has mismatches.
  have hpassed : ∀ c ∈ candidates,
      (errors c).isEmpty = true ↔ c.root.mismatches outputs = .ok [] := by
    intro c hc
    rw [herrors c hc, Except.ok.injEq, List.isEmpty_iff]
  simp only [Bool.and_eq_true, List.all_map, List.all_eq_true, Function.comp_apply, id]
  constructor
  · rintro ⟨hverdict, -⟩ c hc
    exact (hpassed c hc).mp (hverdict c hc)
  · intro hall
    refine ⟨fun c hc => (hpassed c hc).mpr (hall c hc), fun c hc => ?_⟩
    -- Two candidates that pass the check leave nothing for the comparison to report.
    cases candidates with
    | nil => cases hc
    | cons reference others =>
      obtain ⟨hreports, hsame⟩ := hreport reference rfl c hc
      have hmem : c ∈ reference :: others := List.mem_cons_of_mem _ hc
      exact hsame.mpr (hreports.eq_empty
        ((hcheck reference List.mem_cons_self).mp (hall reference List.mem_cons_self))
        ((hcheck c hmem).mp (hall c hmem)))

/-- **The verdict**: with a solver that can be relied on, a complete table and candidates that test
    inputs only, the verification ends with a verdict unless the order of some candidate cannot be
    written, as one of input numbers always can.  The verdict is that all candidates pass the
    check, each by giving the literal of every row that has one.  The result of each check is
    printed, and about the comparison of the first candidate with another one nothing, or that they
    differ on a row with a literal that one of them does not give. -/
theorem sayAll_exact (hsolver : solver.Exact) (hlength : outputs.length = rowCount n)
    (htests : ∀ c ∈ candidates, ∀ var ∈ c.root.tests, 0 ≤ var ∧ var < n) (names : Names) :
    (∀ c ∈ candidates, c.root.mismatches outputs = .ok [] ↔
      ∀ (row : Nat) (text : String), outputs[row]? = some (.literal text) →
        c.root.eval (Assignment.ofRow n row) = .ok (.literal text)) ∧
    ((∃ correct, (sayAll solver candidates outputs names).transcribe.2 = .ok correct) ↔
      ∀ c ∈ candidates, ∃ order, names.joined ", " c.order = .ok order) ∧
    ((∀ c ∈ candidates, ∀ var ∈ c.order, 0 ≤ var) →
      ∃ correct, (sayAll solver candidates outputs names).transcribe.2 = .ok correct) ∧
    ∀ printed correct, (sayAll solver candidates outputs names).transcribe =
        (printed, .ok correct) →
      (correct = true ↔ ∀ c ∈ candidates, c.root.mismatches outputs = .ok []) ∧
      ∃ verdict report : Candidate → String,
        printed = heading ++ (String.join (candidates.map verdict) ++
          (String.join (candidates.tail.map report) ++ footing correct)) ∧
        (∀ c ∈ candidates, ∃ order errors, names.joined ", " c.order = .ok order ∧
          c.root.mismatches outputs = .ok errors ∧ verdict c = verdictText c order errors) ∧
        ∀ reference ∈ candidates.head?, ∀ c ∈ candidates.tail,
          report c = "" ∨ ∃ (row : Nat) (text : String),
            report c = differenceText reference c (Assignment.ofRow n row) ∧
              outputs[row]? = some (.literal text) ∧
              (reference.root.eval (Assignment.ofRow n row) ≠ .ok (.literal text) ∨
                c.root.eval (Assignment.ofRow n row) ≠ .ok (.literal text)) := by
  simp only [← mem_inputNumbers] at htests
  refine ⟨fun c hc => Diagram.mismatches_eq_nil_iff hlength (htests c hc), ?_⟩
  by_cases horders : ∀ c ∈ candidates, ∃ order, names.joined ", " c.order = .ok order
  case pos =>
    obtain ⟨correct, verdict, report, hprints, hcorrect, hverdict, hreport⟩ :=
      exists_says_sayAll hsolver hlength htests horders
    rw [hprints.transcribe_eq]
    refine ⟨⟨fun _ => horders, fun _ => ⟨correct, rfl⟩⟩, fun _ => ⟨correct, rfl⟩, ?_⟩
    rintro printed correct' hend
    obtain ⟨rfl, hsame⟩ := Prod.mk.inj hend
    obtain rfl := Except.ok.inj hsame
    exact ⟨hcorrect, verdict, report, rfl, hverdict, hreport⟩
  case neg =>
    have hfault : ∃ c ∈ candidates, ∃ fault, names.joined ", " c.order = .error fault := by
      simp only [not_forall] at horders
      obtain ⟨c, hc, hnone⟩ := horders
      cases horder : names.joined ", " c.order with
      | ok order => exact absurd ⟨order, horder⟩ hnone
      | error fault => exact ⟨c, hc, fault, horder⟩
    obtain ⟨printed, fault, hprints⟩ := exists_says_sayAll_error solver hlength htests hfault
    rw [hprints.transcribe_eq]
    refine ⟨⟨?_, fun h => absurd h horders⟩, fun hnonneg => ?_, ?_⟩
    · rintro ⟨correct, hend⟩
      cases hend
    · exact absurd (fun c hc => ⟨_, names.joined_eq ", " (hnonneg c hc)⟩) horders
    · intro printed correct hend
      cases hend

/-- Two diagrams that differ on the free row only are all right. -/
theorem sayAll_exact_free_row :
    let outputs : List Cell := [.literal "A", .dontCare]
    let candidates : List Candidate := [⟨1, [0], .leaf 0 (.literal "A"), 1⟩,
      ⟨2, [0], .branch 2 0 (.leaf 0 (.literal "A")) (.leaf 1 (.literal "B")), 2⟩]
    Formula.splitSolver.Exact ∧ outputs.length = rowCount 1 ∧
      (∀ c ∈ candidates, ∀ var ∈ c.root.tests, 0 ≤ var ∧ var < ((1 : Nat) : Int)) ∧
      ∃ printed, (sayAll Formula.splitSolver candidates outputs (.given [])).transcribe =
        (printed, .ok true) := by
  intro outputs candidates
  have htests : ∀ c ∈ candidates, ∀ var ∈ c.root.tests, 0 ≤ var ∧ var < ((1 : Nat) : Int) := by
    decide
  have horders : ∀ c ∈ candidates, ∀ var ∈ c.order, 0 ≤ var := by decide
  have hlength : outputs.length = rowCount 1 := rfl
  obtain ⟨hcheck, -, hends, hverdict⟩ :=
    sayAll_exact Formula.exact_splitSolver hlength htests (.given [])
  obtain ⟨correct, hcorrect⟩ := hends horders
  obtain ⟨hiff, -⟩ := hverdict _ correct (Prod.ext rfl hcorrect)
  have hpassed : ∀ c ∈ candidates, c.root.mismatches outputs = .ok [] := by
    intro c hc
    refine (hcheck c hc).mpr fun row text hcell => ?_
    -- Only the first row has a literal.
    match row with
    | 0 =>
      obtain rfl := Cell.literal.inj (Option.some.inj hcell)
      simp only [candidates, List.mem_cons, List.not_mem_nil, or_false] at hc
      rcases hc with rfl | rfl <;> rfl
    | 1 => cases Option.some.inj hcell
    | row + 2 => cases hcell
  refine ⟨Formula.exact_splitSolver, hlength, htests, _, Prod.ext rfl ?_⟩
  rw [hcorrect, hiff.mpr hpassed]

end Verdict

end Verification

end Dichotomy
