/-!
# Lines

A text is cut into lines at every line break.  A carriage return and the line feed after it are
one break; line feed, carriage return, vertical tab, form feed, the separators `U+001C` to
`U+001E`, `U+0085`, `U+2028` and `U+2029` are one each.  A break at the very end of the text
starts no further line.
-/

namespace Dichotomy

/-- The code points that end a line. -/
def lineBreakCodes : List Nat :=
  [0xA, 0xB, 0xC, 0xD, 0x1C, 0x1D, 0x1E, 0x85, 0x2028, 0x2029]

/-- Whether a character ends a line. -/
def isLineBreak (c : Char) : Bool :=
  lineBreakCodes.contains c.toNat

/-- Cuts characters into lines; `line` holds what has been read of the current one, last
    character first. -/
def cutLines (line : List Char) : List Char → List (List Char)
  | [] => if line.isEmpty then [] else [line.reverse]
  | '\r' :: '\n' :: rest => line.reverse :: cutLines [] rest
  | c :: rest =>
    if isLineBreak c then line.reverse :: cutLines [] rest else cutLines (c :: line) rest

/-- The lines of a text, without their breaks. -/
def lines (text : String) : List String :=
  (cutLines [] text.toList).map String.ofList

end Dichotomy
