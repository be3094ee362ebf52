import Dichotomy.Proofs.CodeAnswers
import Dichotomy.Proofs.DistinctRenderings
import Dichotomy.Proofs.QuotedTexts

/-!
# The languages code is written in

What holds of generated code in both languages: it is read back as the program of the outline,
and the expression of a cell tells the cell.  The code for some candidates is the code for one
candidate of each text.

## Main statements

- `Language.read?_body`: code for a diagram is read back.
- `Language.exists_renderings`: the functions for some candidates and what is read in them.
-/

namespace Dichotomy

/-- A language that diagrams are written in as code. -/
inductive Language where
  /-- JavaScript, with blocks in braces. -/
  | javaScript
  /-- Python, with blocks by indentation. -/
  | python
  deriving DecidableEq

namespace Language

/-- The format in which the language is exported. -/
def format : Language → ExportFormat
  | javaScript => .javaScript
  | python => .python

/-- How the language writes conditions, blocks and results. -/
def style : Language → CodeStyle
  | javaScript => JavaScript.style
  | python => Python.style

/-- Reads the body of a function. -/
def read? : Language → String → Option Program
  | javaScript => JavaScript.read?
  | python => Python.read?

variable {ι : Type} (language : Language)

theorem body_format (name : String) (names : List String) (root : Node) :
    language.format.body name names root = language.style.bodyOf (.given names) root := by
  cases language <;> rfl

/-- A cell is known from its expression. -/
theorem value_injective : Function.Injective language.style.value := by
  cases language with
  | javaScript => exact JavaScript.value_injective
  | python => exact Python.value_injective

/-- Code for a diagram is read back as the program of its outline if the tested inputs are
    mentioned legibly. -/
theorem read?_body {names : Names} {d : Diagram ι} (htests : ∀ var ∈ d.tests, 0 ≤ var)
    (hrefer : ∀ var ∈ d.tests, (names.refer var).IsLegible) (level : Nat) :
    ∃ text, language.style.body names level d.outline = .ok text ∧
      language.read? text =
        some (d.outline.program names.refer language.style.expression .finish) := by
  cases language with
  | javaScript => exact JavaScript.read?_body_of_isLegible htests hrefer level
  | python => exact Python.read?_body_of_isLegible htests hrefer level

/-- Given words as names, the functions for some candidates are those of one candidate for each
    body, and the bodies are read back. -/
theorem exists_renderings {candidates : List Candidate} {names : List String}
    (htests : ∀ c ∈ candidates, ∀ var ∈ c.root.tests, 0 ≤ var)
    (hwords : ∀ name ∈ names, IsIdentifier name) (name : String) :
    ∃ kept text, language.format.renderings candidates name names =
        .ok (kept.map fun c => language.format.complete name names c.id (text c)) ∧
      KeepsFirst Candidate.id text candidates kept ∧
      ∀ c ∈ candidates, language.format.body name names c.root = .ok (text c) ∧
        language.read? (text c) =
          some (c.root.outline.program (Names.given names).refer language.style.expression
            .finish) := by
  have hread : ∀ c ∈ candidates, ∃ text,
      language.format.body name names c.root = .ok text ∧ language.read? text =
        some (c.root.outline.program (Names.given names).refer language.style.expression
          .finish) := by
    intro c hc
    rw [body_format]
    have hwords' : ∀ given ∈ (Names.given names).texts, IsIdentifier given := hwords
    exact language.read?_body (htests c hc)
      (fun var _ => Names.isLegible_refer_of_words hwords' var) 1
  choose! text htext using hread
  obtain ⟨kept, hkept, hkeeps⟩ := language.format.exists_renderings name names
    fun c hc => (htext c hc).1
  exact ⟨kept, text, hkept, hkeeps, htext⟩

end Language

end Dichotomy
