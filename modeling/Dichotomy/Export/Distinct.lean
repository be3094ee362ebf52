/-!
# One rendering of each kind

Diagrams for different orders often come out as the same text.  Each text is kept once, under the
lowest number among the items that have it.
-/

namespace Dichotomy

/-- The pairs whose text has not come before, in their order; `seen` are the texts that have. -/
def firstOfEach (seen : List String) : List (Int × String) → List (Int × String)
  | [] => []
  | (id, text) :: rest =>
    if seen.contains text then firstOfEach seen rest
    else (id, text) :: firstOfEach (text :: seen) rest

/-- Renders numbered items in the order of their numbers and keeps each text once. -/
def distinctRenderings {α ε : Type} (render : α → Except ε String) (items : List (Int × α)) :
    Except ε (List (Int × String)) := do
  let sorted := items.mergeSort fun x y => x.1 ≤ y.1
  let rendered ← sorted.mapM fun (id, item) => do return (id, ← render item)
  return firstOfEach [] rendered

end Dichotomy
