import Dichotomy.Diagram.Outline
import Dichotomy.Names

/-!
# Code for a diagram

An outline is written as nested conditions.  A test opens a block for its high side and goes on
after the block with its low side; every path ends with a statement that returns a result.  What
a condition, a block and a result look like is up to the style.
-/

namespace Dichotomy

/-- How a programming language writes conditions, blocks and results. -/
structure CodeStyle where
  /-- The indentation of one level. -/
  indent : String
  /-- What stands between the inputs of a condition. -/
  conjunction : String
  /-- The line that opens a block under a condition. -/
  opening : String → String
  /-- The line that closes a block, if there is one. -/
  closing : Option String
  /-- The expression for a cell. -/
  value : Cell → String
  /-- The statement that returns an expression. -/
  returning : String → String

namespace CodeStyle

variable {ι : Type}

/-- One line at a level of indentation. -/
def line (style : CodeStyle) (level : Nat) (text : String) : String :=
  String.join (List.replicate level style.indent) ++ text ++ "\n"

/-- The statements of an outline at a level of indentation. -/
def body (style : CodeStyle) (names : Names) (level : Nat) : Outline ι → Except Fault String
  | .give _ cell => .ok (style.line level (style.returning (style.value cell)))
  | .test _ inputs high low => do
    let condition ← names.joined style.conjunction inputs
    let block ← style.body names (level + 1) high
    let rest ← style.body names level low
    let closing := match style.closing with
      | some text => style.line level text
      | none => ""
    return style.line level (style.opening condition) ++ block ++ closing ++ rest

/-- The statements of a diagram, as the body of a function. -/
def bodyOf (style : CodeStyle) (names : Names) (d : Diagram ι) : Except Fault String :=
  style.body names 1 d.outline

end CodeStyle

/-- The parameters of a function: the given names, or one parameter that takes all arguments. -/
def parameters (rest : String) (names : List String) : String :=
  if names.isEmpty then rest else ", ".intercalate names

end Dichotomy
