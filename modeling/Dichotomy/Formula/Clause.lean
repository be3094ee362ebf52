/-!
# Propositional formulas in clause form

A literal is a non-zero integer: `v` demands that variable `v` is true and `-v` that it is false.
A clause is a list of literals of which one has to hold, a formula a list of clauses that all
have to hold.
-/

namespace Dichotomy

/-- A disjunction of literals. -/
abbrev Clause := List Int

/-- A conjunction of clauses. -/
abbrev Formula := List Clause

/-- A truth value for every variable. -/
abbrev Valuation := Nat → Bool

/-- Whether a literal holds. -/
def Valuation.satisfies (v : Valuation) (literal : Int) : Bool :=
  if 0 < literal then v literal.natAbs else !v literal.natAbs

/-- Whether a formula holds. -/
def Formula.holds (f : Formula) (v : Valuation) : Bool :=
  f.all fun clause => clause.any v.satisfies

/-- A procedure that looks for a valuation under which a formula holds. -/
abbrev Solver := Formula → Option Valuation

end Dichotomy
