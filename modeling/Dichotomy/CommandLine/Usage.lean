/-!
# Usage and help

The fixed texts that explain the command line.
-/

namespace Dichotomy

/-- Lines with a line break after each. -/
def paragraph (texts : List String) : String :=
  String.join (texts.map (· ++ "\n"))

/-- How the command is used, in short. -/
def usageText : String :=
  paragraph
    ["usage: decision-optimize [-h] [--file FILE]",
      "                         [--format \x7btext,js,python,mermaid,dot\x7d] [--name NAME]",
      "                         [--args NAME [NAME ...]] [--dont-care DONT_CARE]",
      "                         [--all] [--truth-table N] [--verify] [--verbose]",
      "                         [values ...]"]

/-- How the command is used, in full. -/
def helpText : String :=
  usageText ++ paragraph
    ["",
      "Generate minimal decision logic from a truth table",
      "",
      "positional arguments:",
      "  values                Output column of the truth table (2^n cells, row 0 =",
      "                        all inputs true)",
      "",
      "options:",
      "  -h, --help            show this help message and exit",
      "  --file FILE, -i FILE  Read output cells from a CSV, tab or space separated",
      "                        file ('-' for stdin)",
      "  --format \x7btext,js,python,mermaid,dot\x7d, -f \x7btext,js,python,mermaid,dot\x7d",
      "                        Output format (default: text)",
      "  --name NAME           Function name / start label (default: decideLogic)",
      "  --args NAME [NAME ...]",
      "                        Argument names, one per input variable",
      "  --dont-care DONT_CARE",
      "                        Cell text marking a don't-care output (default: \"don't",
      "                        care\")",
      "  --all                 Include every variable order, not just the optimal",
      "                        ones",
      "  --truth-table N       Print the input rows of an N-input decision table and",
      "                        exit",
      "  --verify              Verify the optimal diagrams against the truth table",
      "  --verbose, -v         Verbose output",
      "",
      "Examples:",
      "  decision-optimize A A B B                 Search all orders of a 2-input table",
      "  decision-optimize A A B B -f js --args x y",
      "                                            Output as JavaScript function(s)",
      "  decision-optimize -f mermaid -i table.csv Output Mermaid flowchart(s)",
      "  decision-optimize --truth-table 3         Show the input rows for 3 inputs",
      "  decision-optimize --verify A \"don't care\" B B",
      "                                            Check optimal diagrams against the table",
      "        "]

end Dichotomy
