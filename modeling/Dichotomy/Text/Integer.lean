import Dichotomy.Text.Blank

/-!
# Integers as text

Reading takes an optional sign and decimal digits of any script; white space around the number is
ignored and single underscores may stand between digits.  Numbers of more than 4300 digits are
neither read nor written.
-/

namespace Dichotomy

/-- The code points of the digit zero in every script that has decimal digits; the other nine
    digits follow each of them in order. -/
def zeroDigits : List Nat :=
  [0x30, 0x660, 0x6F0, 0x7C0, 0x966, 0x9E6, 0xA66, 0xAE6, 0xB66, 0xBE6, 0xC66, 0xCE6, 0xD66,
   0xDE6, 0xE50, 0xED0, 0xF20, 0x1040, 0x1090, 0x17E0, 0x1810, 0x1946, 0x19D0, 0x1A80, 0x1A90,
   0x1B50, 0x1BB0, 0x1C40, 0x1C50, 0xA620, 0xA8D0, 0xA900, 0xA9D0, 0xA9F0, 0xAA50, 0xABF0,
   0xFF10, 0x104A0, 0x10D30, 0x11066, 0x110F0, 0x11136, 0x111D0, 0x112F0, 0x11450, 0x114D0,
   0x11650, 0x116C0, 0x11730, 0x118E0, 0x11950, 0x11C50, 0x11D50, 0x11DA0, 0x16A60, 0x16AC0,
   0x16B50, 0x1D7CE, 0x1D7D8, 0x1D7E2, 0x1D7EC, 0x1D7F6, 0x1E140, 0x1E2F0, 0x1E950, 0x1FBF0]

/-- The value of a decimal digit of any script. -/
def digitValue? (c : Char) : Option Nat :=
  (zeroDigits.find? fun first => first ≤ c.toNat && c.toNat ≤ first + 9).map (c.toNat - ·)

/-- Whether a character is a decimal digit of some script. -/
def isDecimalDigit (c : Char) : Bool :=
  (digitValue? c).isSome

/-- The values of a non-empty run of digits, with single underscores allowed between them. -/
def digitRun? : List Char → Option (List Nat)
  | [] => none
  | [c] => (digitValue? c).map ([·])
  | c :: '_' :: rest => do return (← digitValue? c) :: (← digitRun? rest)
  | c :: rest => do return (← digitValue? c) :: (← digitRun? rest)

/-- The greatest number of digits that is read or written. -/
def digitLimit : Nat := 4300

/-- The number that digits stand for, most significant first; none above the digit limit. -/
def magnitude? (chars : List Char) : Option Nat := do
  let digits ← digitRun? chars
  if digits.length ≤ digitLimit then
    return digits.foldl (fun n digit => 10 * n + digit) 0
  else none

/-- Reads an integer. -/
def readInteger? (text : String) : Option Int :=
  match trimBoth isWhiteSpace text.toList with
  | '-' :: rest => (magnitude? rest).map fun n => -(n : Int)
  | '+' :: rest => (magnitude? rest).map fun n => (n : Int)
  | chars => (magnitude? chars).map fun n => (n : Int)

/-- An integer in decimal digits; none above the digit limit. -/
def integerText? (n : Int) : Option String :=
  if n.natAbs < Nat.pow 10 digitLimit then some (toString n) else none

/-- Integers in brackets, separated by commas. -/
def bracketed (numbers : List Int) : String :=
  "[" ++ ", ".intercalate (numbers.map toString) ++ "]"

end Dichotomy
