import Dichotomy.Proofs.DistinctRenderings
import Dichotomy.Proofs.FlowchartNumbering
import Dichotomy.Proofs.ReorderedTests
import Dichotomy.Proofs.SameChart

/-!
# Flowcharts of reordered diagrams

The flowchart of a diagram with numbers of its own is that of its outline, in which neither the
numbers nor the order of tests over one fallback are seen.  Diagrams that differ in nothing else
have one flowchart, label by label, and when both are exported one of them is left out.

## Main statements

- `Outline.elements_shape`: the marks of an outline are not seen in its flowchart.
- `Node.flowchart_eq_of_reorders`: reordered diagrams have one flowchart, or fail alike.
- `Node.flowchart_independent_of_numbers`: what this says of the exported texts.
-/

namespace Dichotomy

namespace Outline

variable {ι : Type}

theorem shapes_shape (o : Outline ι) : o.shape.shapes = o.shapes := by
  induction o with
  | give mark cell => rfl
  | test mark inputs high low ihHigh ihLow => rw [shape, shapes, shapes, ihHigh, ihLow]

/-- **Marks are not seen**: only the shape of an outline matters to its flowchart. -/
theorem elements_shape (names : Names) (label : Nat) (o : Outline ι) :
    o.shape.elements names label = o.elements names label := by
  induction o generalizing label with
  | give mark cell => rfl
  | test mark inputs high low ihHigh ihLow =>
    -- The low side is numbered behind the high side, whose shapes are as many.
    rw [shape, elements, elements, ihHigh, shapes_shape, ihLow]

end Outline

namespace Node

variable {x y : Node}

/-- **Reordered tests** are not seen in a flowchart, and neither are the numbers of the nodes. -/
theorem flowchart_eq_of_reorders (hx : ∀ number ∈ x.marks, 0 ≤ number) (hxNodup : x.marks.Nodup)
    (hy : ∀ number ∈ y.marks, 0 ≤ number) (hyNodup : y.marks.Nodup)
    (h : x.shape.Reorders y.shape) (names : Names) : x.flowchart names = y.flowchart names := by
  have hshape : x.outline.shape = y.outline.shape := by
    rw [← x.outline_shape, h.outline_eq, y.outline_shape]
  have helements : x.outline.elements names 0 = y.outline.elements names 0 := by
    rw [← x.outline.elements_shape, hshape, y.outline.elements_shape]
  rw [flowchart_eq_elements names hx hxNodup, flowchart_eq_elements names hy hyNodup, helements]

end Node

/-- A diagram with a flowchart has a text in each format of flowcharts. -/
theorem ChartFormat.body_of_flowchart (chartFormat : ChartFormat) (name : String)
    {names : List String} {root : Node} {chart : Flowchart}
    (h : root.flowchart (.given names) = .ok chart) :
    chartFormat.format.body name names root = .ok (chartFormat.text name chart) := by
  cases chartFormat
  all_goals
    rw [format, ExportFormat.body, h]
    rfl

namespace Node

/-- **Labels depend on the shape**: two diagrams, each with numbers of its own, that differ in these
    numbers and in the order of tests over one fallback have the same flowchart, with the same
    labels.  They have one if all inputs have names, and else they fail alike.  Written in either
    format they are one text, so the candidate with the higher number is left out, and of those
    with one number the one that comes later. -/
theorem flowchart_independent_of_numbers {first second : Candidate}
    (hfirst : ∀ number ∈ first.root.marks, 0 ≤ number) (hfirstNodup : first.root.marks.Nodup)
    (hsecond : ∀ number ∈ second.root.marks, 0 ≤ number) (hsecondNodup : second.root.marks.Nodup)
    (h : first.root.shape.Reorders second.root.shape) :
    (∀ names, first.root.flowchart names = second.root.flowchart names) ∧
      ((∀ var ∈ first.root.tests, 0 ≤ var) → ∀ names, ∃ chart,
        first.root.flowchart names = .ok chart ∧ second.root.flowchart names = .ok chart) ∧
      ∀ (chartFormat : ChartFormat) (name : String) (names : List String),
        chartFormat.format.body name names first.root =
          chartFormat.format.body name names second.root ∧
        ((∀ var ∈ first.root.tests, 0 ≤ var) → ∃ text,
          chartFormat.format.body name names first.root = .ok text ∧
            chartFormat.format.body name names second.root = .ok text) ∧
        ∀ before after : List Candidate,
          (first ∈ before ∧ first.id ≤ second.id ∨ first ∈ after ∧ first.id < second.id) →
            chartFormat.format.renderings (before ++ second :: after) name names =
              chartFormat.format.renderings (before ++ after) name names := by
  have hsame := flowchart_eq_of_reorders hfirst hfirstNodup hsecond hsecondNodup h
  have hexists (htests : ∀ var ∈ first.root.tests, 0 ≤ var) (names : Names) : ∃ chart,
      first.root.flowchart names = .ok chart ∧ second.root.flowchart names = .ok chart := by
    obtain ⟨chart, hchart, -⟩ := exists_flowchart names hfirst htests hfirstNodup
    exact ⟨chart, hchart, hsame names ▸ hchart⟩
  refine ⟨hsame, hexists, fun chartFormat name names => ?_⟩
  have hbody : chartFormat.format.body name names first.root =
      chartFormat.format.body name names second.root := by
    cases chartFormat
    all_goals
      simp only [ChartFormat.format, ExportFormat.body]
      rw [hsame]
  refine ⟨hbody, fun htests => ?_, fun before after hplace =>
    ExportFormat.renderings_append_cons hbody hplace⟩
  obtain ⟨chart, hchart, hchart'⟩ := hexists htests (.given names)
  exact ⟨_, chartFormat.body_of_flowchart name hchart, chartFormat.body_of_flowchart name hchart'⟩

/-- Two tests over `no` behind a third one, asked in either order by nodes with other numbers. -/
theorem flowchart_independent_of_numbers_swapped :
    let first : Candidate := ⟨1, [0, 1, 2], .branch 6 0 (.branch 4 1 (.branch 2 2
      (.leaf 0 (.literal "yes")) (.leaf 1 (.literal "no"))) (.leaf 3 (.literal "no")))
      (.branch 10 1 (.leaf 8 (.literal "yes")) (.leaf 9 .dontCare)), 4⟩
    let second : Candidate := ⟨2, [0, 2, 1], .branch 31 0 (.branch 14 2 (.branch 12 1
      (.leaf 17 (.literal "yes")) (.leaf 11 (.literal "no"))) (.leaf 13 (.literal "no")))
      (.branch 25 1 (.leaf 2 (.literal "yes")) (.leaf 20 .dontCare)), 4⟩
    (∀ number ∈ first.root.marks, 0 ≤ number) ∧ first.root.marks.Nodup ∧
      (∀ number ∈ second.root.marks, 0 ≤ number) ∧ second.root.marks.Nodup ∧
      first.root.shape.Reorders second.root.shape ∧ (∀ var ∈ first.root.tests, 0 ≤ var) ∧
      (∃ chart, first.root.flowchart .none = .ok chart ∧ second.root.flowchart .none = .ok chart) ∧
      (∃ text, ExportFormat.mermaid.body "decide" [] first.root = .ok text ∧
        ExportFormat.mermaid.body "decide" [] second.root = .ok text) ∧
      ExportFormat.dot.renderings [second, first] "decide" [] =
        ExportFormat.dot.renderings [first] "decide" [] := by
  intro first second
  have hfirst : ∀ number ∈ first.root.marks, 0 ≤ number := by decide
  have hfirstNodup : first.root.marks.Nodup := by decide
  have hsecond : ∀ number ∈ second.root.marks, 0 ≤ number := by decide
  have hsecondNodup : second.root.marks.Nodup := by decide
  have htests : ∀ var ∈ first.root.tests, 0 ≤ var := by decide
  have hreorders : first.root.shape.Reorders second.root.shape :=
    .branch 0 (.swap 1 2 (.leaf () (.literal "yes")) (.literal "no")) (.refl _)
  obtain ⟨-, hcharts, htexts⟩ :=
    flowchart_independent_of_numbers hfirst hfirstNodup hsecond hsecondNodup hreorders
  obtain ⟨-, hmermaid, -⟩ := htexts .mermaid "decide" []
  obtain ⟨-, -, hdot⟩ := htexts .dot "decide" []
  exact ⟨hfirst, hfirstNodup, hsecond, hsecondNodup, hreorders, htests, hcharts htests .none,
    hmermaid htests, hdot [] [first] (.inr ⟨List.mem_cons_self, by decide⟩)⟩

/-- Tests of an input that is looked up among names from the end: in either order they have no
    flowchart. -/
theorem flowchart_negative_chain :
    let first : Node := .branch 4 0 (.branch 3 (-1) (.leaf 0 (.literal "A"))
      (.leaf 1 (.literal "B"))) (.leaf 2 (.literal "B"))
    let second : Node := .branch 9 (-1) (.branch 8 0 (.leaf 5 (.literal "A"))
      (.leaf 6 (.literal "B"))) (.leaf 7 (.literal "B"))
    (∀ number ∈ first.marks, 0 ≤ number) ∧ first.marks.Nodup ∧
      (∀ number ∈ second.marks, 0 ≤ number) ∧ second.marks.Nodup ∧
      first.shape.Reorders second.shape ∧
      first.flowchart .none = .error (.noNames .outside) ∧
      second.flowchart .none = .error (.noNames .outside) := by
  intro first second
  have hfirst : ∀ number ∈ first.marks, 0 ≤ number := by decide
  have hfirstNodup : first.marks.Nodup := by decide
  have hsecond : ∀ number ∈ second.marks, 0 ≤ number := by decide
  have hsecondNodup : second.marks.Nodup := by decide
  refine ⟨hfirst, hfirstNodup, hsecond, hsecondNodup, .swap 0 (-1) (.leaf () (.literal "A")) _,
    ?_, ?_⟩
  · rw [flowchart_eq_elements .none hfirst hfirstNodup]
    rfl
  · rw [flowchart_eq_elements .none hsecond hsecondNodup]
    rfl

end Node

end Dichotomy
