/-!
# Escaped text

Escaping writes each character of a text on its own, some of them by a longer text.
-/

namespace Dichotomy

/-- The text in which each character `c` is written as `write c`. -/
def escaped (write : Char → List Char) (text : String) : String :=
  String.ofList (text.toList.flatMap write)

end Dichotomy
