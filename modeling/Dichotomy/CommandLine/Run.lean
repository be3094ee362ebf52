import Dichotomy.Check.Verification
import Dichotomy.CommandLine.Settings
import Dichotomy.CommandLine.Usage
import Dichotomy.Ingest.File
import Dichotomy.Ingest.RawCell
import Dichotomy.Search.Summary
import Dichotomy.Table.Listing

/-!
# Running a command line

A run reads the table, searches all orders and prints the summary or the renderings; it may then
verify the best diagrams.  Renderings are alone on the standard output: with them, the progress
is not reported and the verification goes to the error output.  A fault ends the run, but what
has been printed stays.

It is assumed that both outputs can encode every text, so printing itself never ends a run.
-/

namespace Dichotomy

/-- What has been printed on either output. -/
structure Console where
  /-- The standard output. -/
  output : String
  /-- The error output. -/
  errors : String
  deriving DecidableEq

/-- A run that prints on two outputs and may stop with a fault. -/
abbrev Session := ExceptT Fault (StateM Console)

namespace Session

/-- Adds text to the standard output.  This cannot fail, on the assumption that every text can be
    encoded there. -/
def write (text : String) : Session Unit :=
  modify fun console => { console with output := console.output ++ text }

/-- Adds text to the error output, on the same assumption. -/
def writeError (text : String) : Session Unit :=
  modify fun console => { console with errors := console.errors ++ text }

/-- Has the given outcome. -/
def outcome {α : Type} (result : Except Fault α) : Session α :=
  match result with
  | .ok value => pure value
  | .error fault => throw fault

/-- Prints a transcript by the given means. -/
def relay {α : Type} (print : String → Session Unit) (t : Transcript α) : Session α := do
  let (printed, result) := t.transcribe
  print printed
  outcome result

end Session

namespace Settings

open Session

/-- The cell that a text stands for; without a marker every text is a literal. -/
def cellOf (s : Settings) (text : String) : Cell :=
  match s.marker with
  | some marker => Cell.ofText marker text
  | none => .literal text

/-- The name in renderings.  Without a value, code shows an empty list for it and flowcharts
    nothing. -/
def nameFor (s : Settings) (format : ExportFormat) : String :=
  match s.name, format with
  | some name, _ => name
  | none, .javaScript | none, .python => "[]"
  | none, .mermaid | none, .dot => ""

/-- The texts of the output column. -/
def texts (s : Settings) (sources : Sources) : Except Fault (List String) :=
  if s.path = "" then .ok s.cells else sources.cellsAt s.path

/-- The table of a run. -/
def table (s : Settings) (sources : Sources) : Except Fault Table := do
  Table.ofCells ((← s.texts sources).map s.cellOf)

/-- The candidates that are printed. -/
def chosen (s : Settings) (report : Report) : List Candidate :=
  if s.all then report.candidates else report.optimal

/-- Prints the heading above a summary. -/
def sayHeading (table : Table) : Transcript Unit := do
  Transcript.say "Decision Logic Optimizer"
  Transcript.say (rule 40 '=')
  let cells := table.cells.length
  Transcript.say s!"Inputs: {table.inputs}, cells: {cells}"
  Transcript.say ""

/-- Searches a table and prints the results; gives the report. -/
def printResults (s : Settings) (table : Table) : Session Report := do
  let names := Names.given s.inputNames
  match s.format with
  | .summary =>
    relay write (sayHeading table)
    let report ← relay write (table.searchAloud s.verbose)
    relay write (report.sayAll names s.all)
    return report
  | .exported format =>
    let report ← outcome table.search
    let renderings ←
      outcome (format.renderings (s.chosen report) (s.nameFor format) s.inputNames)
    write ("\n\n".intercalate renderings ++ "\n")
    return report
  | .unusable =>
    let _ ← outcome table.search
    throw .unusableFormat

/-- Where the verification is printed. -/
def printVerification (s : Settings) : String → Session Unit :=
  match s.format with
  | .summary => write
  | _ => writeError

/-- Runs on a table; tells whether all went well. -/
def runOn (s : Settings) (solver : Solver) (table : Table) : Session Bool := do
  let report ← s.printResults table
  if s.verify then
    s.printVerification "\n"
    relay s.printVerification
      (Verification.sayAll solver report.optimal table.cells (.given s.inputNames))
  else return true

end Settings

/-- How a command ended. -/
structure Ending where
  /-- The exit code. -/
  code : Nat
  /-- What was printed. -/
  console : Console
  deriving DecidableEq

namespace Ending

/-- The first line of the trace that follows the message of a fault in a verbose run. -/
def traceHeading : String := "Traceback (most recent call last):\n"

/-- The ending of a session: a fault is reported on the error output, and it or a failed
    verification makes the exit code `1`. -/
def ofSession (verbose : Bool) (session : Session Bool) : Ending :=
  match session.run.run ⟨"", ""⟩ with
  | (.ok correct, console) => ⟨if correct then 0 else 1, console⟩
  | (.error fault, console) =>
    let report := "Error: " ++ fault.message ++ "\n" ++ if verbose then traceHeading else ""
    ⟨1, { console with errors := console.errors ++ report }⟩

/-- The ending of a command that refuses its arguments or explains itself. -/
def ofRefusal : Refusal → Ending
  | .help => ⟨0, ⟨helpText, ""⟩⟩
  | .misuse message => ⟨2, ⟨"", usageText ++ "decision-optimize: error: " ++ message ++ "\n"⟩⟩

end Ending

/-- Runs with the given settings.  The rows of a table are printed outside of any session, so a
    fault there is not reported as an ending. -/
def Settings.run (s : Settings) (solver : Solver) (sources : Sources) : Except Fault Ending :=
  match s.rows with
  | .none =>
    .ok (Ending.ofSession s.verbose do
      s.runOn solver (← Session.outcome (s.table sources)))
  | .unusable => .error .unusableCount
  | .over inputs => do
    let (printed, result) := (sayRows inputs none s.inputNames).transcribe
    let _ ← result
    return ⟨0, ⟨printed, ""⟩⟩

/-- Runs a command line. -/
def runCommand (solver : Solver) (sources : Sources) (arguments : List String) :
    Except Fault Ending :=
  match Settings.ofArguments arguments with
  | .ok settings => settings.run solver sources
  | .error refusal => .ok (Ending.ofRefusal refusal)

end Dichotomy
