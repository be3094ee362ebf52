import Dichotomy.Export.Rendering
import Dichotomy.Proofs.DistinctRenderings
import Dichotomy.Proofs.QuotedTexts

/-!
# Reading JavaScript literals

A literal between single quotes is read character by character.  It ends at the first quote without
a backslash in front of it, a backslash and a letter stand for one character, and a line break
leaves the literal unfinished.

The backslashes that are written keep the quotes of a text inside its literal, whatever the text
is, so there are two quotes that are not escaped, the first character and the last one.  Line
breaks are not escaped.  Hence exactly the texts without line feeds and carriage returns are read
back.

## Main statements

- `JavaScript.bareQuotes_value`: which quotes end a literal.
- `JavaScript.readLiteral?_value`: what is read back from a literal.
- `JavaScript.literals_read_back`: both together, and no expression stands for two cells.
-/

namespace Dichotomy

namespace JavaScript

/-! ## Reading literals -/

/-- Whether a character ends a line and cannot stand in a literal. -/
def breaksLine (c : Char) : Bool := c = '\n' || c = '\r'

/-- What a backslash and a character stand for.  Escapes that give a character by its number and
    backslashes at the end of a line are not read. -/
def escape? : Char → Option Char
  | 'b' => some '\x08'
  | 't' => some '\t'
  | 'n' => some '\n'
  | 'v' => some '\x0b'
  | 'f' => some '\x0c'
  | 'r' => some '\r'
  | c =>
    if c.isDigit || c = 'x' || c = 'u' || breaksLine c || c = '\u2028' || c = '\u2029' then none
    else some c

/-- Reads a literal from behind its opening quote on: its text and what follows it. -/
def readRest? : List Char → Option (List Char × List Char)
  | [] => none
  | '\'' :: rest => some ([], rest)
  | '\\' :: c :: rest =>
    match escape? c with
    | some d => (readRest? rest).map fun (text, rest) => (d :: text, rest)
    | none => none
  | c :: rest =>
    if breaksLine c then none
    else (readRest? rest).map fun (text, rest) => (c :: text, rest)

/-- Reads a literal: its text and what follows it. -/
def readLiteral? : List Char → Option (List Char × List Char)
  | '\'' :: rest => readRest? rest
  | _ => none

/-- The positions of the quotes that no backslash escapes, where the first character stands at
    `start`. -/
def bareQuotes (start : Nat) : List Char → List Nat
  | [] => []
  | '\\' :: _ :: rest => bareQuotes (start + 2) rest
  | c :: rest =>
    if c = '\'' then start :: bareQuotes (start + 1) rest else bareQuotes (start + 1) rest

/-! ## One character -/

theorem toList_value_literal (text : String) :
    (value (.literal text)).toList = '\'' :: (text.toList.flatMap writeChar ++ ['\'']) := by
  simp [value, escaped, String.toList_append]

theorem writeChar_of_ne {c : Char} (hbackslash : c ≠ '\\') (hquote : c ≠ '\'') :
    writeChar c = [c] := by
  simp [writeChar, hbackslash, hquote]

/-- A character is read back from what is written for it, unless it breaks the line. -/
theorem readRest?_writeChar (c : Char) (rest : List Char) :
    readRest? (writeChar c ++ rest) =
      if breaksLine c then none
      else (readRest? rest).map fun (text, rest) => (c :: text, rest) := by
  -- Backslashes and quotes are written with a backslash in front, all else as it is.
  by_cases hbackslash : c = '\\'
  · subst hbackslash
    rfl
  by_cases hquote : c = '\''
  · subst hquote
    rfl
  rw [writeChar_of_ne hbackslash hquote, List.singleton_append, readRest?]
  · exact hquote
  · exact fun _ _ hbackslash' _ => hbackslash hbackslash'

/-- What is written for a character holds no quote that is not escaped. -/
theorem bareQuotes_writeChar (start : Nat) (c : Char) (rest : List Char) :
    bareQuotes start (writeChar c ++ rest) = bareQuotes (start + (writeChar c).length) rest := by
  by_cases hbackslash : c = '\\'
  · subst hbackslash
    rfl
  by_cases hquote : c = '\''
  · subst hquote
    rfl
  rw [writeChar_of_ne hbackslash hquote, List.singleton_append, bareQuotes, if_neg hquote]
  · rfl
  · exact fun _ _ hbackslash' _ => hbackslash hbackslash'

/-- Nothing but backslashes is added to a text. -/
theorem mem_writeChar_iff {c d : Char} (h : d ≠ '\\') : d ∈ writeChar c ↔ d = c := by
  unfold writeChar
  split <;> simp [h]

/-! ## Whole texts -/

theorem readRest?_flatMap_writeChar (chars rest : List Char) :
    readRest? (chars.flatMap writeChar ++ '\'' :: rest) =
      if chars.any breaksLine then none else some (chars, rest) := by
  induction chars with
  | nil => rfl
  | cons c chars ih =>
    rw [List.flatMap_cons, List.append_assoc, readRest?_writeChar, ih, List.any_cons]
    -- One line break is enough, wherever it stands.
    cases breaksLine c <;> cases chars.any breaksLine <;> rfl

/-- **Reading back**: a literal is read up to its end, whatever follows it, and yields its text if
    the text has no line breaks; otherwise it cannot be read. -/
theorem readLiteral?_value (text : String) (rest : List Char) :
    readLiteral? ((value (.literal text)).toList ++ rest) =
      if text.toList.any breaksLine then none else some (text.toList, rest) := by
  rw [toList_value_literal, List.cons_append, List.append_assoc]
  exact readRest?_flatMap_writeChar text.toList rest

theorem bareQuotes_flatMap_writeChar (start : Nat) (chars rest : List Char) :
    bareQuotes start (chars.flatMap writeChar ++ rest) =
      bareQuotes (start + (chars.flatMap writeChar).length) rest := by
  induction chars generalizing start with
  | nil => rfl
  | cons c chars ih =>
    rw [List.flatMap_cons, List.append_assoc, bareQuotes_writeChar, ih, List.length_append,
      Nat.add_assoc]

/-- The quotes around a text are the only ones that are not escaped. -/
theorem bareQuotes_value (text : String) :
    bareQuotes 0 (value (.literal text)).toList =
      [0, (value (.literal text)).toList.length - 1] := by
  have hopening : ∀ rest, bareQuotes 0 ('\'' :: rest) = 0 :: bareQuotes 1 rest := fun _ => rfl
  rw [toList_value_literal, hopening, bareQuotes_flatMap_writeChar]
  simp [bareQuotes, Nat.add_comm]

/-- A character other than the backslash stands in a literal only if it stands in the text. -/
theorem mem_value_iff {c : Char} (hbackslash : c ≠ '\\') (hquote : c ≠ '\'') {text : String} :
    c ∈ (value (.literal text)).toList ↔ c ∈ text.toList := by
  rw [toList_value_literal]
  simp [List.mem_flatMap, mem_writeChar_iff hbackslash, hquote]

/-- **JavaScript literals**: the expression for a text begins and ends with a quote that is not
    escaped and has no other one.  It holds the line feeds and carriage returns of the text as they
    are.  Read as a literal it yields the text, if this has neither of them, and otherwise it is
    none.  And it is the expression of no other cell. -/
theorem literals_read_back (text : String) :
    bareQuotes 0 (value (.literal text)).toList =
        [0, (value (.literal text)).toList.length - 1] ∧
      ('\n' ∈ (value (.literal text)).toList ↔ '\n' ∈ text.toList) ∧
      ('\r' ∈ (value (.literal text)).toList ↔ '\r' ∈ text.toList) ∧
      (∀ rest : List Char, readLiteral? ((value (.literal text)).toList ++ rest) =
        if '\n' ∈ text.toList ∨ '\r' ∈ text.toList then none else some (text.toList, rest)) ∧
      ∀ cell : Cell, value cell = value (.literal text) → cell = .literal text := by
  refine ⟨bareQuotes_value text, mem_value_iff (by decide) (by decide),
    mem_value_iff (by decide) (by decide), fun rest => ?_, fun cell h => value_injective h⟩
  have hbreaks : text.toList.any breaksLine = true ↔
      '\n' ∈ text.toList ∨ '\r' ∈ text.toList := by
    simp [breaksLine, List.any_eq_true, and_or_left, exists_or]
  rw [readLiteral?_value]
  simp only [hbreaks]

/-- Quotes and backslashes are read back, and a line feed that is escaped would be. -/
example : readLiteral? "'it\\'s \\\\ \\n'; ".toList = some ("it's \\ \n".toList, "; ".toList) := rfl

/-- A text of two lines is written over two lines, which is no literal, so the function that
    returns it is no JavaScript. -/
theorem line_feed_breaks_literal :
    value (.literal "A\nB") = "'A\nB'" ∧ '\n' ∈ (value (.literal "A\nB")).toList ∧
      readLiteral? (value (.literal "A\nB")).toList = none ∧
      ExportFormat.javaScript.renderings [⟨1, [], .leaf 0 (.literal "A\nB"), 1⟩] "decideLogic" [] =
        .ok ["// ID: 1\nfunction decideLogic(...input) \x7b\n  return 'A\nB';\n\x7d"] := by
  refine ⟨rfl, by decide, rfl, ?_⟩
  rw [ExportFormat.renderings, distinctRenderings, List.map_singleton, List.mergeSort_singleton]
  rfl

end JavaScript

end Dichotomy
