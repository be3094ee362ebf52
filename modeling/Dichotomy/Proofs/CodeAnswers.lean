import Dichotomy.Proofs.ReadJavaScript
import Dichotomy.Proofs.ReadPython

/-!
# Answers of generated code

Code for a diagram is read back as the program of the diagram's outline, in both languages.
Called with the values of an assignment, the program returns the expression of the cell that the
diagram gives.

## Main statements

- `JavaScript.read?_body`, `Python.read?_body`: generated code is read back.
- `Diagram.code_answers`: generated code computes the diagram.
-/

namespace Dichotomy

/-! ## Reading back -/

variable {ι : Type} {names : Names} {d : Diagram ι}

/-- JavaScript for a diagram is read back as the program of its outline if the tested inputs are
    mentioned legibly. -/
theorem JavaScript.read?_body_of_isLegible (htests : ∀ var ∈ d.tests, 0 ≤ var)
    (hrefer : ∀ var ∈ d.tests, (names.refer var).IsLegible) (level : Nat) :
    ∃ text, style.body names level d.outline = .ok text ∧
      read? text = some (d.outline.program names.refer style.expression .finish) := by
  obtain ⟨text, hbody, htext⟩ := style.exists_body names level (o := d.outline) fun var hvar =>
    htests var (d.inputs_outline_subset hvar)
  have hlegible := d.isLegible_statements names.refer style.expression true level hrefer
  refine ⟨text, hbody, ?_⟩
  rw [read?_of_statements htext hlegible]
  exact d.outline.program?_statements names.refer style.expression level

theorem JavaScript.read?_body (htests : ∀ var ∈ d.tests, 0 ≤ var)
    (hnames : names.AreParameters d.tests) (level : Nat) :
    ∃ text, style.body names level d.outline = .ok text ∧
      read? text = some (d.outline.program names.refer style.expression .finish) :=
  read?_body_of_isLegible htests
    (fun var hvar => Names.isLegible_refer hnames hvar (htests var hvar)) level

/-- Python for a diagram is read back as the program of its outline if the tested inputs are
    mentioned legibly. -/
theorem Python.read?_body_of_isLegible (htests : ∀ var ∈ d.tests, 0 ≤ var)
    (hrefer : ∀ var ∈ d.tests, (names.refer var).IsLegible) (level : Nat) :
    ∃ text, style.body names level d.outline = .ok text ∧
      read? text = some (d.outline.program names.refer style.expression .finish) := by
  obtain ⟨text, hbody, htext⟩ := style.exists_body names level (o := d.outline) fun var hvar =>
    htests var (d.inputs_outline_subset hvar)
  have hlegible := d.isLegible_statements names.refer style.expression false level hrefer
  -- Blocks are closed by their columns, four for each level.
  have hlayout := d.outline.layout_statements names.refer style.expression (by decide : 0 < 4) level
  refine ⟨text, hbody, ?_⟩
  calc read? text = (layout true [] _).bind program? := read?_of_statements htext hlegible
    _ = program? _ := congrArg (Option.bind · program?) hlayout
    _ = _ := d.outline.program?_statements names.refer style.expression level

theorem Python.read?_body (htests : ∀ var ∈ d.tests, 0 ≤ var)
    (hnames : names.AreParameters d.tests) (level : Nat) :
    ∃ text, style.body names level d.outline = .ok text ∧
      read? text = some (d.outline.program names.refer style.expression .finish) :=
  read?_body_of_isLegible htests
    (fun var hvar => Names.isLegible_refer hnames hvar (htests var hvar)) level

/-- Called with the values of an assignment, the program of an outline returns the expression of
    the cell that the diagram gives. -/
theorem Diagram.call_program (style : CodeStyle) (hnames : names.AreParameters d.tests)
    {a : Assignment} (hcovers : a.Covers d) :
    ∃ cell, d.eval a = .ok cell ∧
      (d.outline.program names.refer style.expression .finish).call names.texts a =
        .ok (some (style.value cell)) := by
  obtain ⟨cell, heval, hrun⟩ := d.run_program names.refer style.expression hcovers
    (fun var hvar => Names.value?_refer hnames hvar (hcovers var hvar)) .finish
  rw [style.text_expression] at hrun
  exact ⟨cell, heval, hrun⟩

/-! ## Generated code computes the diagram -/

/-- **Generated code computes the diagram**: with no names or different words for all tested
    inputs, code in both languages, at any level of indentation, is read back as a program that
    returns, for every assignment that covers the diagram, the expression of the cell that the
    diagram gives. -/
theorem Diagram.code_answers (d : Diagram ι) (names : Names) (level : Nat)
    (htests : ∀ var ∈ d.tests, 0 ≤ var) (hnames : names.AreParameters d.tests) :
    (∃ text program, JavaScript.style.body names level d.outline = .ok text ∧
      JavaScript.read? text = some program ∧
      ∀ a : Assignment, a.Covers d → ∃ cell, d.eval a = .ok cell ∧
        program.call names.texts a = .ok (some (JavaScript.value cell))) ∧
    (∃ text program, Python.style.body names level d.outline = .ok text ∧
      Python.read? text = some program ∧
      ∀ a : Assignment, a.Covers d → ∃ cell, d.eval a = .ok cell ∧
        program.call names.texts a = .ok (some (Python.value cell))) := by
  obtain ⟨script, hscript, hscriptRead⟩ := JavaScript.read?_body htests hnames level
  obtain ⟨python, hpython, hpythonRead⟩ := Python.read?_body htests hnames level
  exact ⟨⟨script, _, hscript, hscriptRead, fun a => d.call_program JavaScript.style hnames⟩,
    ⟨python, _, hpython, hpythonRead, fun a => d.call_program Python.style hnames⟩⟩

/-- A condition over two named inputs, in the order of their numbers, and a result with a quote
    in it. -/
theorem Diagram.code_answers_conjunction :
    let d : Node := .branch 4 1 (.branch 3 0 (.leaf 0 (.literal "it's")) (.leaf 1 .dontCare))
      (.leaf 2 .dontCare)
    let names : Names := .given ["left", "right"]
    (∀ var ∈ d.tests, 0 ≤ var) ∧ names.AreParameters d.tests ∧
      Assignment.Covers [true, true] d ∧
      (∃ text program, JavaScript.style.body names 1 d.outline = .ok text ∧
        JavaScript.read? text = some program ∧
        program.call ["left", "right"] [true, true] = .ok (some "'it\\'s'")) ∧
      (∃ text program, Python.style.body names 1 d.outline = .ok text ∧
        Python.read? text = some program ∧
        program.call ["left", "right"] [true, true] = .ok (some "\"it's\"")) := by
  intro d names
  have htests : ∀ var ∈ d.tests, 0 ≤ var := by decide
  have hnames : names.AreParameters d.tests := .inr ⟨by decide, by decide, by decide⟩
  have hcovers : Assignment.Covers [true, true] d := by
    unfold Assignment.Covers
    decide
  have heval : d.eval [true, true] = .ok (.literal "it's") := rfl
  obtain ⟨⟨script, program, hscript, hread, hcall⟩, ⟨python, program', hpython, hread', hcall'⟩⟩ :=
    code_answers d names 1 htests hnames
  refine ⟨htests, hnames, hcovers, ⟨script, program, hscript, hread, ?_⟩,
    ⟨python, program', hpython, hread', ?_⟩⟩
  · obtain ⟨cell, hcell, hreturn⟩ := hcall _ hcovers
    obtain rfl : Cell.literal "it's" = cell := Except.ok.inj (heval.symm.trans hcell)
    exact hreturn.trans (by decide)
  · obtain ⟨cell, hcell, hreturn⟩ := hcall' _ hcovers
    obtain rfl : Cell.literal "it's" = cell := Except.ok.inj (heval.symm.trans hcell)
    exact hreturn.trans (by decide)

end Dichotomy
