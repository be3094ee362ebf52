import Dichotomy.Fault

/-!
# Transcripts

A transcript is a computation that prints lines and may stop with a fault.  What was printed
before the fault stays printed.
-/

namespace Dichotomy

/-- A computation with printed text. -/
abbrev Transcript := ExceptT Fault (StateM String)

namespace Transcript

/-- Prints one line.  This cannot fail, on the assumption that every text can be encoded where it is
    printed. -/
def say (line : String) : Transcript Unit :=
  modify fun printed => printed ++ line ++ "\n"

/-- Prints nothing and has the given outcome. -/
def outcome {α : Type} (result : Except Fault α) : Transcript α :=
  match result with
  | .ok value => pure value
  | .error fault => throw fault

/-- The printed text and how the computation ended. -/
def transcribe {α : Type} (t : Transcript α) : String × Except Fault α :=
  let (result, printed) := t.run.run ""
  (printed, result)

end Transcript

end Dichotomy
