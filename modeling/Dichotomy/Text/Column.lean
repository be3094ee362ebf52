/-!
# Columns

Fixed-width columns of a listing.  Widths count characters; a text that is too long is kept
whole.
-/

namespace Dichotomy

/-- The text pushed to the right end of a column. -/
def alignRight (width : Nat) (text : String) : String :=
  String.ofList (List.replicate (width - text.length) ' ') ++ text

/-- The text at the left end of a column. -/
def alignLeft (width : Nat) (text : String) : String :=
  text ++ String.ofList (List.replicate (width - text.length) ' ')

/-- A horizontal rule. -/
def rule (width : Nat) (c : Char) : String :=
  String.ofList (List.replicate width c)

end Dichotomy
