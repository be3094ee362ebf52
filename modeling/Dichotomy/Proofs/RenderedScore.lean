import Dichotomy.Proofs.FlowchartNumbering

/-!
# The score and the renderings

The score of a diagram is worked out from one decision and the next, without writing anything.  It
tells how many results every rendering holds.

## Main statements

- `Node.score_counts_results`: the count along merge chains, the return statements of the code in
  both languages and the boxes of the flowchart are as many as the score says.
-/

namespace Dichotomy

namespace Node

/-- A text that does not contain `return` does not contain it with a blank behind it. -/
private theorem occurrences_eq_zero_of_word {text : List Char}
    (h : ¬ "return".toList <:+: text) : occurrences returnWord text = 0 := by
  refine occurrences_eq_zero fun hpart => h (List.IsInfix.trans ?_ hpart)
  exact ⟨[], [' '], by decide⟩

/-- **The score counts results**: as many as counting along merge chains finds, as return
    statements in code for either language, and as boxes in a flowchart whose nodes carry
    different numbers; the flowchart has one diamond less.  In the text of the code the statements
    are the places of the word `return`, unless a result spells it; quoted for Python, a carriage
    return before `eturn` spells it too. -/
theorem score_counts_results (d : Node) (htests : ∀ var ∈ d.tests, 0 ≤ var) :
    d.returns = d.score ∧ d.outline.results = d.score ∧
      (∃ code, JavaScript.style.bodyOf (.given []) d = .ok code ∧
        ((∀ text, Cell.literal text ∈ d.cells → ¬ "return".toList <:+: text.toList) →
          occurrences "return ".toList code.toList = d.score)) ∧
      (∃ code, Python.style.bodyOf (.given []) d = .ok code ∧
        ((∀ text, Cell.literal text ∈ d.cells → ¬ "return".toList <:+: text.toList ∧
            ¬ "\return ".toList <:+: text.toList) →
          occurrences "return ".toList code.toList = d.score)) ∧
      (d.marks.Nodup → (∀ number ∈ d.marks, 0 ≤ number) → ∀ names,
        ∃ chart, d.flowchart names = .ok chart ∧
          chart.elements.countP Element.isResult = d.score ∧
          chart.elements.countP Element.isDecision = d.score - 1) := by
  have hword : "return ".toList = returnWord := by decide
  have hcarriage : "\return ".toList = '\r' :: returnWord.tail := by decide
  refine ⟨d.returns_eq_score, d.results_outline, ?_, ?_, ?_⟩
  · obtain ⟨code, hcode, hcount⟩ := JavaScript.countsReturns.occurrences_bodyOf htests
    refine ⟨code, hcode, fun hcells => ?_⟩
    rw [hword]
    refine hcount fun cell hcell text htext => ?_
    subst htext
    exact occurrences_eq_zero_of_word (hcells text hcell)
  · -- In Python the word must not be spelled by an escape either.
    obtain ⟨code, hcode, hcount⟩ := Python.countsReturns.occurrences_bodyOf htests
    refine ⟨code, hcode, fun hcells => ?_⟩
    rw [hword]
    refine hcount fun cell hcell text htext => ?_
    subst htext
    obtain ⟨hplain, hodd⟩ := hcells text hcell
    rw [hcarriage] at hodd
    exact ⟨occurrences_eq_zero_of_word hplain, occurrences_eq_zero hodd⟩
  · intro hnodup hnumbers names
    exact exists_flowchart names hnumbers htests hnodup

/-- A chain of two tests with the fallback `no`, interrupted by a third one. -/
theorem score_counts_results_chain :
    let d : Node := .branch 6 0 (.branch 4 1 (.branch 2 0 (.leaf 0 (.literal "yes"))
      (.leaf 1 .dontCare)) (.leaf 3 (.literal "no"))) (.leaf 5 (.literal "no"))
    (∀ var ∈ d.tests, 0 ≤ var) ∧ d.marks.Nodup ∧ (∀ number ∈ d.marks, 0 ≤ number) ∧
      d.score = 3 ∧ d.returns = 3 ∧
      (∃ code, JavaScript.style.bodyOf (.given []) d = .ok code ∧
        occurrences "return ".toList code.toList = 3) ∧
      (∃ code, Python.style.bodyOf (.given []) d = .ok code ∧
        occurrences "return ".toList code.toList = 3) ∧
      ∃ chart, d.flowchart (.given []) = .ok chart ∧
        chart.elements.countP Element.isResult = 3 ∧
        chart.elements.countP Element.isDecision = 2 := by
  intro d
  have htests : ∀ var ∈ d.tests, 0 ≤ var := by decide
  have hnodup : d.marks.Nodup := by decide
  have hnumbers : ∀ number ∈ d.marks, 0 ≤ number := by decide
  have htexts : ∀ text, Cell.literal text ∈ d.cells → ¬ "return".toList <:+: text.toList ∧
      ¬ "\return ".toList <:+: text.toList := by
    intro text htext
    have hcases : text = "yes" ∨ text = "no" := by simpa [d, Diagram.cells] using htext
    rcases hcases with rfl | rfl <;> decide
  obtain ⟨hreturns, -, ⟨script, hscript, hscriptCount⟩, ⟨code, hcode, hcount⟩, hchart⟩ :=
    score_counts_results d htests
  have hwords := hscriptCount fun text htext => (htexts text htext).1
  exact ⟨htests, hnodup, hnumbers, rfl, hreturns, ⟨script, hscript, hwords⟩,
    ⟨code, hcode, hcount htexts⟩, hchart hnodup hnumbers _⟩

/-- Quoted for Python, the escape of a carriage return before `eturn` reads as the word. -/
theorem carriage_return_spells_word :
    ¬ "return".toList <:+: "\return ".toList ∧
      Diagram.score (.leaf 0 (.literal "\return ") : Node) = 1 ∧
      ∃ code, Python.style.bodyOf (.given []) (.leaf 0 (.literal "\return ") : Node) = .ok code ∧
        occurrences "return ".toList code.toList = 2 := by
  refine ⟨by decide, rfl, _, rfl, ?_⟩
  decide

end Node

end Dichotomy
