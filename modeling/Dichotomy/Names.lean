import Dichotomy.Fault

/-!
# Names of the inputs

An input is called by the name given for its number, or by its position when there is none or the
name is empty.
-/

namespace Dichotomy

/-- The names given to the inputs, by input number. -/
inductive Names where
  /-- No names were given. -/
  | none
  /-- These names were given, perhaps fewer than there are inputs. -/
  | given (texts : List String)

namespace Names

/-- The names as a list. -/
def texts : Names → List String
  | none => []
  | given texts => texts

/-- The fault of a number that counts back beyond the first name. -/
def fault (miss : Miss) : Names → Fault
  | none => .noNames miss
  | given _ => .noEntry miss

/-- The name of one input. -/
def nameOf (names : Names) (var : Int) : Except Fault String :=
  if var < names.texts.length then
    match atPosition names.texts var with
    | .ok name => .ok (if name = "" then s!"input[{var}]" else name)
    | .error miss => .error (names.fault miss)
  else .ok s!"input[{var}]"

/-- The names of several inputs with a text between them. -/
def joined (names : Names) (between : String) (vars : List Int) : Except Fault String := do
  return between.intercalate (← vars.mapM names.nameOf)

end Names

end Dichotomy
