import Dichotomy.CommandLine.Word
import Dichotomy.Export.Rendering
import Dichotomy.Text.Quoted

/-!
# Settings from the command line

Reading the classed arguments from left to right gives the settings of a run.  The first unbroken
stretch of values is the output column; options take the values right behind them.  Arguments
that fit nowhere are refused together at the end, any other mistake at once.

A value that is itself `--` is taken for a second separator and dropped, also when it belongs to an
option.  The option is then left without a value, which each setting below provides for.  Argument
parsers have had two rules for this: the older one, in releases before 3.11.9 and 3.12.3, drops the
first `--` from the values of any argument; the newer one leaves the values of options alone.  The
older rule is the one modelled here.
-/

namespace Dichotomy

/-- Why no run takes place. -/
inductive Refusal where
  /-- The help text was asked for. -/
  | help
  /-- The arguments are at fault. -/
  | misuse (message : String)

/-- What a run prints. -/
inductive OutputFormat where
  /-- The summary of the search. -/
  | summary
  /-- Renderings of the diagrams. -/
  | exported (format : ExportFormat)
  /-- The format was given without a value. -/
  | unusable

/-- Whether the rows of a table were asked for. -/
inductive RowsRequest where
  /-- They were not. -/
  | none
  /-- The rows over so many inputs. -/
  | over (inputs : Int)
  /-- The number of inputs was given without a value. -/
  | unusable

/-- The settings of a run. -/
structure Settings where
  /-- The output column. -/
  cells : List String
  /-- The path of the file that holds the output column; empty if there is none. -/
  path : String
  /-- What to print. -/
  format : OutputFormat
  /-- The name of the generated function, if it has a value. -/
  name : Option String
  /-- The names of the inputs. -/
  inputNames : List String
  /-- The text that marks free cells, if it has a value. -/
  marker : Option String
  /-- Whether every order is included. -/
  all : Bool
  /-- Whether the rows are to be printed instead. -/
  rows : RowsRequest
  /-- Whether the results are verified. -/
  verify : Bool
  /-- Whether the progress is reported. -/
  verbose : Bool

namespace Settings

/-- The settings of a command line without arguments. -/
def default : Settings where
  cells := []
  path := ""
  format := .summary
  name := some "decideLogic"
  inputNames := []
  marker := some "don't care"
  all := false
  rows := .none
  verify := false
  verbose := false

/-- The spellings of the formats. -/
def formats : List (String × OutputFormat) :=
  [("text", .summary), ("js", .exported .javaScript), ("python", .exported .python),
    ("mermaid", .exported .mermaid), ("dot", .exported .dot)]

/-- A mistake in the use of one option. -/
def misuse (flag : Flag) (message : String) : Refusal :=
  .misuse ("argument " ++ flag.title ++ ": " ++ message)

/-- The format with the given spelling. -/
def readFormat (spelling : String) : Except Refusal OutputFormat :=
  match formats.lookup spelling with
  | some format => .ok format
  | none =>
    let choices := ", ".intercalate (formats.map fun (known, _) => quoted known)
    .error (misuse .format
      ("invalid choice: " ++ quoted spelling ++ " (choose from " ++ choices ++ ")"))

/-- The number of inputs written in a text. -/
def readCount (text : String) : Except Refusal RowsRequest :=
  match readInteger? text with
  | some inputs => .ok (.over inputs)
  | none => .error (misuse .rows ("invalid int value: " ++ quoted text))

/-- Sets an option to values from which separators have been dropped. -/
def set (s : Settings) : Flag → List String → Except Refusal Settings
  | .help, _ => .error .help
  | .file, values => .ok { s with path := values.headD "" }
  | .format, spelling :: _ => do return { s with format := ← readFormat spelling }
  | .format, [] => .ok { s with format := .unusable }
  | .name, values => .ok { s with name := values.head? }
  | .inputNames, values => .ok { s with inputNames := values }
  | .marker, values => .ok { s with marker := values.head? }
  | .all, _ => .ok { s with all := true }
  | .rows, text :: _ => do return { s with rows := ← readCount text }
  | .rows, [] => .ok { s with rows := .unusable }
  | .verify, _ => .ok { s with verify := true }
  | .verbose, _ => .ok { s with verbose := true }

/-- Drops the first separator from the values of an argument.  By the older rule, which is modelled
    here, this is done to the values of options as well as to the output column. -/
def dropSeparator (values : List String) : List String := values.erase "--"

/-- The options composed in one argument: those without values, and the last one with the value
    attached to it, if any.  After a single dash an option without values may be followed by the
    letter of the next one. -/
def compose (flag : Flag) (short : Bool) :
    List Char → Except Refusal (List Flag × Flag × Option String)
  | [] =>
    match flag.arity with
    | .zero => .error (misuse flag ("ignored explicit argument " ++ quoted ""))
    | _ => .ok ([], flag, some "")
  | c :: rest =>
    match flag.arity with
    | .zero =>
      match short, Flag.ofSpelling? (String.ofList ['-', c]) with
      | true, some next =>
        if rest.isEmpty then .ok ([flag], next, none)
        else do
          let (flags, last) ← compose next true rest
          return (flag :: flags, last)
      | _, _ =>
        .error (misuse flag ("ignored explicit argument " ++ quoted (String.ofList (c :: rest))))
    | _ => .ok ([], flag, some (String.ofList (c :: rest)))

/-- Whether an argument is a value. -/
def isPlain : Word → Bool
  | .plain _ => true
  | _ => false

/-- Whether an argument is a value or the separator. -/
def isPlainOrSeparator : Word → Bool
  | .plain _ => true
  | .separator => true
  | _ => false

/-- How many of the following arguments an option takes as its values. -/
def valuesTaken (flag : Flag) (following : List Word) : Except Refusal Nat :=
  let values := (following.takeWhile isPlain).length
  match flag.arity with
  | .zero => .ok 0
  | .one =>
    if 1 ≤ values then .ok 1 else .error (misuse flag "expected one argument")
  | .some =>
    if 1 ≤ values then .ok values else .error (misuse flag "expected at least one argument")

/-- The options set by an argument, with their values, and the number of following arguments that
    are among these. -/
def optionsOf (flag : Flag) (short : Bool) (attached : Option String) (following : List Word) :
    Except Refusal (List (Flag × List String) × Nat) := do
  let (flags, last, value) ←
    match attached with
    | some text => compose flag short text.toList
    | none => .ok ([], flag, none)
  let before := flags.map fun flag => (flag, [])
  match value with
  | some text => return (before ++ [(last, [text])], 0)
  | none =>
    let taken ← valuesTaken last following
    return (before ++ [(last, (following.take taken).map Word.text)], taken)

/-- Sets several options in order. -/
def setAll (s : Settings) (options : List (Flag × List String)) : Except Refusal Settings :=
  options.foldlM (fun s (flag, values) => s.set flag (dropSeparator values)) s

/-- What has been read of a command line. -/
structure Progress where
  /-- The settings so far. -/
  settings : Settings
  /-- Whether the output column has been read. -/
  cellsRead : Bool
  /-- The arguments that fit nowhere. -/
  extras : List String

/-- Reads classed arguments from left to right. -/
def readWords (p : Progress) : List Word → Except Refusal Progress
  | [] => .ok p
  | .unknown text :: rest => readWords { p with extras := p.extras ++ [text] } rest
  | .option flag short attached :: rest => do
    let (options, taken) ← optionsOf flag short attached rest
    let settings ← p.settings.setAll options
    readWords { p with settings := settings } (rest.drop taken)
  | word :: rest =>
    let stretch := word.text :: (rest.takeWhile isPlainOrSeparator).map Word.text
    let following := rest.dropWhile isPlainOrSeparator
    if p.cellsRead then readWords { p with extras := p.extras ++ stretch } following
    else
      let settings := { p.settings with cells := dropSeparator stretch }
      readWords { p with settings := settings, cellsRead := true } following
termination_by words => words.length
decreasing_by
  · simp only [List.length_cons]; omega
  · simp only [List.length_cons, List.length_drop]; omega
  · have := (List.dropWhile_suffix (l := rest) isPlainOrSeparator).length_le
    simp only [List.length_cons]; omega
  · have := (List.dropWhile_suffix (l := rest) isPlainOrSeparator).length_le
    simp only [List.length_cons]; omega

/-- The settings that a command line asks for. -/
def ofArguments (arguments : List String) : Except Refusal Settings := do
  let words ←
    match Word.ofArguments arguments with
    | .ok words => .ok words
    | .error message => .error (.misuse message)
  let p ← readWords ⟨default, false, []⟩ words
  if p.extras.isEmpty then return p.settings
  else throw (.misuse ("unrecognized arguments: " ++ " ".intercalate p.extras))

end Settings

end Dichotomy
