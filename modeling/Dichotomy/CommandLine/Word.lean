import Dichotomy.CommandLine.Flag
import Dichotomy.Text.Integer

/-!
# Words of the command line

Each argument is first classed on its own.  Options may be shortened to any beginning that fits
one of them only, and may carry a value after an equals sign or, after a single dash, right behind
their letter.  Numbers below zero and arguments with spaces are values even though they begin
with a dash.  The first `--` ends the options: all that follows are values.
-/

namespace Dichotomy

/-- An argument, classed. -/
inductive Word where
  /-- A value. -/
  | plain (text : String)
  /-- The argument that ends the options. -/
  | separator
  /-- An option; `short` tells whether it is spelt with a single dash, `attached` is the value
      written in the same argument. -/
  | option (flag : Flag) (short : Bool) (attached : Option String)
  /-- Something spelt like an option that is none. -/
  | unknown (text : String)

namespace Word

/-- The text of a value or separator; options have none here. -/
def text : Word → String
  | plain text => text
  | separator => "--"
  | option _ _ _ => ""
  | unknown text => text

/-- Whether a spelling has a single dash. -/
def isShort (spelling : List Char) : Bool := !(['-', '-'].isPrefixOf spelling)

/-- An argument cut at its first equals sign. -/
def cutAtEquals (chars : List Char) : List Char × Option String :=
  match chars.dropWhile (· ≠ '=') with
  | _ :: value => (chars.takeWhile (· ≠ '='), some (String.ofList value))
  | [] => (chars, none)

/-- Whether characters are a number below zero: a dash and digits, or a dash and digits with a
    point that has a digit after it.  A line feed may follow. -/
def isNegativeNumber : List Char → Bool
  | '-' :: rest =>
    let chars := if rest.getLast? = some '\n' then rest.dropLast else rest
    let fraction := chars.dropWhile isDecimalDigit
    match fraction with
    | [] => !chars.isEmpty
    | '.' :: digits => !digits.isEmpty && digits.all isDecimalDigit
    | _ => false
  | _ => false

/-- The options that a shortened or composed argument may stand for. -/
def candidates (chars : List Char) : List (String × Word) :=
  if isShort chars then
    let letter := String.ofList (chars.take 2)
    (Flag.spellings.filter (·.1 = letter)).map fun (spelling, flag) =>
      (spelling, option flag true (some (String.ofList (chars.drop 2))))
  else
    let (beginning, attached) := cutAtEquals chars
    (Flag.spellings.filter fun (spelling, _) => beginning.isPrefixOf spelling.toList).map
      fun (spelling, flag) => (spelling, option flag false attached)

/-- The class of an argument before the separator; the fault names the options that an ambiguous
    argument may stand for. -/
def ofArgument (argument : String) : Except String Word :=
  let chars := argument.toList
  if chars.head? ≠ some '-' then .ok (plain argument)
  else
    match Flag.ofSpelling? argument with
    | some flag => .ok (option flag (isShort chars) none)
    | none =>
      if chars.length = 1 then .ok (plain argument)
      else
        let (spelling, attached) := cutAtEquals chars
        match attached, Flag.ofSpelling? (String.ofList spelling) with
        | some value, some flag => .ok (option flag (isShort spelling) (some value))
        | _, _ =>
          match candidates chars with
          | [(_, word)] => .ok word
          | [] =>
            if isNegativeNumber chars || chars.contains ' ' then .ok (plain argument)
            else .ok (unknown argument)
          | several =>
            let matching := ", ".intercalate (several.map (·.1))
            .error ("ambiguous option: " ++ argument ++ " could match " ++ matching)

/-- The classes of all arguments. -/
def ofArguments : List String → Except String (List Word)
  | [] => .ok []
  | "--" :: rest => .ok (separator :: rest.map plain)
  | argument :: rest => do return (← ofArgument argument) :: (← ofArguments rest)

end Word

end Dichotomy
