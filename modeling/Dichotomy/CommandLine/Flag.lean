/-!
# Options of the command line

The options, their spellings and how many values each takes.
-/

namespace Dichotomy

/-- An option of the command line. -/
inductive Flag where
  /-- Shows the help text. -/
  | help
  /-- Reads the cells from a file. -/
  | file
  /-- Chooses the output format. -/
  | format
  /-- Names the generated function. -/
  | name
  /-- Names the inputs. -/
  | inputNames
  /-- Sets the marker of free cells. -/
  | marker
  /-- Includes every order. -/
  | all
  /-- Prints the rows of a table instead. -/
  | rows
  /-- Verifies the results. -/
  | verify
  /-- Reports the progress. -/
  | verbose
  deriving DecidableEq

/-- How many values an option takes. -/
inductive Arity where
  /-- None. -/
  | zero
  /-- Exactly one. -/
  | one
  /-- One or more. -/
  | some

namespace Flag

/-- All spellings, in the order in which the options are declared. -/
def spellings : List (String × Flag) :=
  [("-h", help), ("--help", help), ("--file", file), ("-i", file), ("--format", format),
    ("-f", format), ("--name", name), ("--args", inputNames), ("--dont-care", marker),
    ("--all", all), ("--truth-table", rows), ("--verify", verify), ("--verbose", verbose),
    ("-v", verbose)]

/-- The option with the given spelling. -/
def ofSpelling? (spelling : String) : Option Flag := spellings.lookup spelling

/-- All spellings of an option, as messages name it. -/
def title (flag : Flag) : String :=
  "/".intercalate ((spellings.filter (·.2 = flag)).map (·.1))

/-- How many values an option takes. -/
def arity : Flag → Arity
  | help | all | verify | verbose => .zero
  | file | format | name | marker | rows => .one
  | inputNames => .some

end Flag

end Dichotomy
