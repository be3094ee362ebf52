import Dichotomy.Diagram.Chain

/-!
# Counting results as code writes them

The score of a diagram looks at one decision and the next.  Code instead reads a whole merge chain
as one condition: it writes the results of the consequence and, once, the fallback.  Counting that
way checks the score.
-/

namespace Dichotomy

namespace Diagram

variable {ι : Type}

/-- The consequence of a merge chain has fewer decisions than the diagram. -/
theorem decisions_lt_of_chain? {d : Diagram ι} {chain : Chain ι} (h : d.chain? = some chain) :
    chain.consequence.decisions < d.decisions :=
  (decisions_lt_of_opening (opening_of_chain? h)).1

/-- The number of results that code for a diagram writes down, one merge chain at a time. -/
def returns : Diagram ι → Nat
  | leaf _ _ => 1
  | branch mark var high low =>
    match _hchain : (branch mark var high low).chain? with
    | some chain => chain.consequence.returns + 1
    | none => high.returns + low.returns
termination_by d => d.decisions
decreasing_by
  · exact decisions_lt_of_chain? _hchain
  · simp only [decisions]; omega
  · simp only [decisions]; omega

end Diagram

end Dichotomy
