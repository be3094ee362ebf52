import Dichotomy.Text.Printable

/-!
# Quoted text

Text is quoted so that a reader can tell exactly which characters it holds.  Single quotes
enclose it, unless it holds single quotes and no double ones.  Backslash, the enclosing quote,
tab, line feed and carriage return are escaped by a backslash; any other character that is not
printable is written by its number with two, four or eight hexadecimal digits.
-/

namespace Dichotomy

namespace Quoted

/-- A number in lower-case hexadecimal digits, filled up with zeros to a given width. -/
def hex (width : Nat) (n : Nat) : List Char :=
  let digits := Nat.toDigits 16 n
  List.replicate (width - digits.length) '0' ++ digits

/-- The written form of one character between the given quotes. -/
def encodeChar (quote c : Char) : List Char :=
  if c = quote || c = '\\' then ['\\', c]
  else if c = '\t' then ['\\', 't']
  else if c = '\n' then ['\\', 'n']
  else if c = '\r' then ['\\', 'r']
  else if isPrintable c then [c]
  else if c.toNat ≤ 0xFF then '\\' :: 'x' :: hex 2 c.toNat
  else if c.toNat ≤ 0xFFFF then '\\' :: 'u' :: hex 4 c.toNat
  else '\\' :: 'U' :: hex 8 c.toNat

/-- The quote that encloses a text. -/
def quoteFor (chars : List Char) : Char :=
  if chars.contains '\'' && !chars.contains '"' then '"' else '\''

/-- The quoted form of a list of characters. -/
def encode (chars : List Char) : List Char :=
  let quote := quoteFor chars
  quote :: chars.flatMap (encodeChar quote) ++ [quote]

end Quoted

/-- A text in quotes, with all that needs it escaped. -/
def quoted (text : String) : String :=
  String.ofList (Quoted.encode text.toList)

end Dichotomy
