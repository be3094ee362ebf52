import Dichotomy.Diagram.Description
import Dichotomy.Text.Integer
import Dichotomy.Text.Utf8

/-!
# Faults

Everything that can go wrong, by cause, and the words in which it is reported.
-/

namespace Dichotomy

/-- Why an operation has no result. -/
inductive Fault where
  /-- The number of cells is no power of two. -/
  | tableSize (cells : Int)
  /-- The number of cells does not belong to the number of inputs in the order. -/
  | sizeMismatch (cells inputs : Nat)
  /-- The order does not name each input once. -/
  | notAnOrder (order : List Int) (inputs : Int)
  /-- The number of inputs is beyond all counting. -/
  | uncountable (inputs : Int)
  /-- There are more inputs than a list can hold. -/
  | tooManyInputs
  /-- An assignment does not cover a tested input. -/
  | uncovered (miss : Miss)
  /-- A negative input number counts from the end of names that were not given. -/
  | noNames (miss : Miss)
  /-- A position lies outside a list. -/
  | noEntry (miss : Miss)
  /-- There is no least score among no results. -/
  | noScores
  /-- A diagram that is to be compared tests something that is not an input. -/
  | foreignInput (var inputs : Int)
  /-- A variable of a formula has no number, because numbering started below zero. -/
  | zeroLiteral
  /-- A node that is to be drawn has no number. -/
  | unnumbered (node : Tree)
  /-- A value that is to be read as a table has no parts. -/
  | notATable (kind : String)
  /-- A field of a table file is too long. -/
  | longField
  /-- A line break stands within a row. -/
  | brokenRow
  /-- There is no file of that name. -/
  | missingFile (path : String)
  /-- The path names a directory. -/
  | directory (path : String)
  /-- The path goes on behind a file. -/
  | throughFile (path : String)
  /-- The path or a name in it is too long. -/
  | longPath (path : String)
  /-- The path holds the character that ends paths. -/
  | nullInPath
  /-- The bytes of a file are no text. -/
  | notText (damage : Utf8.Damage)
  /-- The output format was given without a value. -/
  | unusableFormat
  /-- The number of inputs was given without a value. -/
  | unusableCount

namespace Fault

/-- The greatest number of characters in a field. -/
def fieldLimit : Nat := 131072

/-- A text about the inputs that names the last of them, unless its number has too many digits to
    be written. -/
def upToLast (inputs : Int) (text : String → String) : String :=
  match integerText? (inputs - 1) with
  | some last => text last
  | none =>
    s!"Exceeds the limit ({digitLimit} digits) for integer string conversion; " ++
      "use sys.set_int_max_str_digits() to increase the limit"

/-- The fault in words. -/
def message : Fault → String
  | tableSize cells => s!"Table length ({cells}) must be a power of two (1, 2, 4, 8, ...)"
  | sizeMismatch cells inputs => s!"Table of {cells} cells does not match {inputs} variables"
  | notAnOrder order inputs =>
    upToLast inputs fun last =>
      "Variable order " ++ bracketed order ++ " is not a permutation of 0.." ++ last
  | uncountable inputs =>
    if 0 < inputs then "Python int too large to convert to C ssize_t"
    else "cannot fit 'int' into an index-sized integer"
  | tooManyInputs => ""
  | uncovered .outside => "tuple index out of range"
  | noNames .outside => "tuple index out of range"
  | noEntry .outside => "list index out of range"
  | uncovered .unaddressable | noNames .unaddressable | noEntry .unaddressable =>
    "cannot fit 'int' into an index-sized integer"
  | noScores => "min() arg is an empty sequence"
  | foreignInput var inputs =>
    upToLast inputs fun last =>
      "Diagram tests variable " ++ toString var ++ " outside 0.." ++ last
  | zeroLiteral => "non-zero integer expected"
  | unnumbered node => node.description ++ " was not allocated in a NodeArena"
  | notATable kind => s!"'{kind}' object is not iterable"
  | longField => s!"field larger than field limit ({fieldLimit})"
  | brokenRow =>
    "new-line character seen in unquoted field - do you need to open the file in " ++
      "universal-newline mode?"
  | missingFile path => "[Errno 2] No such file or directory: " ++ quoted path
  | directory path => "[Errno 21] Is a directory: " ++ quoted path
  | throughFile path => "[Errno 20] Not a directory: " ++ quoted path
  | longPath path => "[Errno 36] File name too long: " ++ quoted path
  | nullInPath => "embedded null byte"
  | notText damage => damage.message
  | unusableFormat => "unhashable type: 'list'"
  | unusableCount => "'list' object cannot be interpreted as an integer"

end Fault

end Dichotomy
