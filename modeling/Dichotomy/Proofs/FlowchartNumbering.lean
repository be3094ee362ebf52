import Dichotomy.Proofs.CodeReturns
import Dichotomy.Proofs.FlowchartParts

/-!
# Numbered shapes

In a diagram whose nodes carry numbers of their own, nothing is met twice.  Its flowchart can then
be written down from the outline alone: the shapes are numbered from `0` on, each one before those
it leads to, and the high side before the low side.  What the numbers of the nodes are, and which
nodes of a merge chain have been skipped, is not seen in it.

## Main statements

- `Drawing.draw_eq_elements`: drawing a node adds what its outline says.
- `Node.flowchart_eq_elements`: the flowchart of a diagram by its outline.
- `Node.exists_flowchart`: the parts of a whole flowchart.
-/

namespace Dichotomy

/-! ## The flowchart of an outline -/

namespace Outline

variable {ι : Type}

/-- The marks in the order in which a flowchart numbers them, the high side first. -/
def marks : Outline ι → List ι
  | give mark _ => [mark]
  | test mark _ high low => mark :: (high.marks ++ low.marks)

/-- The number of shapes, one for each result and each condition. -/
def shapes : Outline ι → Nat
  | give _ _ => 1
  | test _ _ high low => 1 + high.shapes + low.shapes

/-- The parts of a flowchart whose shapes are numbered from a label on, in the order they are
    drawn.  They can be written down if all inputs have names. -/
def elements (names : Names) : Nat → Outline ι → Except Fault (List Element)
  | label, give _ cell => .ok [.result label cell]
  | label, test _ inputs high low => do
    let text ← names.joined " && " inputs
    let first ← high.elements names (label + 1)
    let rest ← low.elements names (label + 1 + high.shapes)
    return .decision label inputs text :: (first ++ .edge label (label + 1) true ::
      (rest ++ [.edge label (label + 1 + high.shapes) false]))

@[simp] theorem length_marks (o : Outline ι) : o.marks.length = o.shapes := by
  induction o with
  | give mark cell => rfl
  | test mark inputs high low ihHigh ihLow =>
    rw [marks, shapes, List.length_cons, List.length_append, ihHigh, ihLow]
    omega

/-- Where all inputs have names, every result is drawn as a box, and there is one diamond less. -/
theorem exists_elements (names : Names) (label : Nat) {o : Outline ι}
    (hinputs : ∀ var ∈ o.inputs, 0 ≤ var) :
    ∃ parts, o.elements names label = .ok parts ∧
      parts.countP Element.isResult = o.results ∧
      parts.countP Element.isDecision + 1 = o.results := by
  induction o generalizing label with
  | give mark cell => exact ⟨_, rfl, rfl, rfl⟩
  | test mark inputs high low ihHigh ihLow =>
    rw [Outline.inputs, List.forall_mem_append, List.forall_mem_append] at hinputs
    obtain ⟨hinputs, hhighInputs, hlowInputs⟩ := hinputs
    obtain ⟨text, htext⟩ := exists_joined names " && " hinputs
    obtain ⟨first, hfirst, hfirstResults, hfirstDecisions⟩ := ihHigh (label + 1) hhighInputs
    obtain ⟨rest, hrest, hrestResults, hrestDecisions⟩ :=
      ihLow (label + 1 + high.shapes) hlowInputs
    have hparts : elements names label (test mark inputs high low) =
        .ok (.decision label inputs text :: (first ++ .edge label (label + 1) true ::
          (rest ++ [.edge label (label + 1 + high.shapes) false]))) := by
      rw [elements, htext, hfirst, hrest]
      rfl
    refine ⟨_, hparts, ?_, ?_⟩
    · simp [results, Element.isResult, hfirstResults, hrestResults]
    · -- Both sides have one diamond less than boxes, and one more stands in front of them.
      rw [results, ← hfirstDecisions, ← hrestDecisions]
      simp only [List.countP_cons, List.countP_append, List.countP_nil, Element.isDecision]
      simp
      omega

end Outline

namespace Diagram

variable {ι : Type}

theorem mark_mem_marks_outline (d : Diagram ι) : d.mark ∈ d.outline.marks := by
  rw [outline_eq]
  cases d.opening <;> exact List.mem_cons_self

/-- The marks of skipped nodes are left out. -/
theorem marks_outline_sublist (d : Diagram ι) : d.outline.marks.Sublist d.marks := by
  induction d using opening_induction with
  | give d cell hopening =>
    rw [outline_eq, hopening]
    exact List.singleton_sublist.mpr d.mark_mem_marks
  | ask d inputs high low hopening ihHigh ihLow =>
    rw [outline_eq, hopening]
    -- The sides of the opening are parts of the diagram, so what they leave out it leaves out.
    exact ((ihHigh.append ihLow).cons_cons d.mark).trans (marks_opening_sublist hopening)

end Diagram

/-! ## Drawing -/

namespace Drawing

/-- Steps behind one that succeeds or not, as a value does. -/
theorem bind_of_eq_map {α β : Type} {x : Drawing Unit} {s : Sketch} {value : Except Fault α}
    {after : α → Sketch} (h : x s = value.map fun a => ((), after a)) (f : Unit → Drawing β) :
    (x >>= f) s = value >>= fun a => f () (after a) := by
  cases value with
  | error fault => simp [bind, StateT.bind, h, Except.bind, Except.map]
  | ok a => exact bind_eq h

/-- Numbers that a sketch has not seen, none of them twice. -/
structure AreNew (numbers labelled drawn : List Int) : Prop where
  nonneg : ∀ number ∈ numbers, 0 ≤ number
  nodup : numbers.Nodup
  notLabelled : ∀ number ∈ numbers, number ∉ labelled
  notDrawn : ∀ number ∈ numbers, number ∉ drawn

namespace AreNew

variable {numbers first rest labelled drawn : List Int} {number : Int}

theorem of_append_left (h : AreNew (first ++ rest) labelled drawn) :
    AreNew first labelled drawn where
  nonneg number hnumber := h.nonneg number (List.mem_append_left _ hnumber)
  nodup := (List.nodup_append.mp h.nodup).1
  notLabelled number hnumber := h.notLabelled number (List.mem_append_left _ hnumber)
  notDrawn number hnumber := h.notDrawn number (List.mem_append_left _ hnumber)

/-- What comes later is new still when the first numbers have been labelled and drawn. -/
theorem of_append_right (h : AreNew (first ++ rest) labelled drawn) :
    AreNew rest (labelled ++ first) (first.reverse ++ drawn) := by
  obtain ⟨-, hrest, hdiffer⟩ := List.nodup_append.mp h.nodup
  -- No number comes twice, so the first ones are not met again.
  have hnot : ∀ number ∈ rest, number ∉ first := fun number hnumber hfirst =>
    hdiffer number hfirst number hnumber rfl
  refine ⟨fun number hnumber => h.nonneg number (List.mem_append_right _ hnumber), hrest, ?_, ?_⟩
  · intro number hnumber hmem
    rcases List.mem_append.mp hmem with hmem | hmem
    · exact h.notLabelled number (List.mem_append_right _ hnumber) hmem
    · exact hnot number hnumber hmem
  · intro number hnumber hmem
    rcases List.mem_append.mp hmem with hmem | hmem
    · exact hnot number hnumber (List.mem_reverse.mp hmem)
    · exact h.notDrawn number (List.mem_append_right _ hnumber) hmem

end AreNew

/-- A node with the last label, none of whose numbers have been seen otherwise, adds the parts of
    its outline, numbered from its label on. -/
def DrawsOutline (names : Names) (node : Node) : Prop :=
  ∀ (labelled drawn : List Int) (parts : List Element),
    AreNew node.outline.marks labelled drawn →
      draw names node ⟨labelled ++ [node.mark], drawn, parts⟩ =
        (node.outline.elements names labelled.length).map fun new =>
          ((), ⟨labelled ++ node.outline.marks, node.outline.marks.reverse ++ drawn,
            new.reverse ++ parts⟩)

/-- A side without a label gets the next one, and is drawn with the edge to it. -/
theorem drawSide_eq_elements {names : Names} {side : Node} (hdraws : DrawsOutline names side)
    (source : Nat) (taken : Bool) {labelled drawn : List Int} (parts : List Element)
    (hnew : AreNew side.outline.marks labelled drawn) :
    drawSide names source taken side ⟨labelled, drawn, parts⟩ =
      (side.outline.elements names labelled.length).map fun new =>
        ((), ⟨labelled ++ side.outline.marks, side.outline.marks.reverse ++ drawn,
          .edge source labelled.length taken :: (new.reverse ++ parts)⟩) := by
  have hroot := side.mark_mem_marks_outline
  have hlabel := labelOf_of_notMem (s := ⟨labelled, drawn, parts⟩) (hnew.nonneg _ hroot)
    (hnew.notLabelled _ hroot)
  -- The side has the last label now, which is what its drawing starts from.
  rw [drawSide, bind_eq hlabel, bind_of_eq_map (hdraws labelled drawn parts hnew)]
  cases side.outline.elements names labelled.length <;> rfl

/-- A node that has just been labelled gets its label once more. -/
theorem labelOf_last {node : Node} {labelled drawn : List Int} (parts : List Element)
    (hmark : 0 ≤ node.mark) (h : node.mark ∉ labelled) :
    labelOf node ⟨labelled ++ [node.mark], drawn, parts⟩ =
      .ok (labelled.length, ⟨labelled ++ [node.mark], drawn, parts⟩) := by
  rw [labelOf_of_mem hmark (List.mem_append_right _ List.mem_cons_self)]
  simp [List.idxOf_append_of_notMem h]

theorem drawsOutline_of_give (names : Names) {node : Node} {cell : Cell}
    (hopening : node.opening = .give cell) : DrawsOutline names node := by
  intro labelled drawn parts hnew
  have hroot := node.mark_mem_marks_outline
  rw [draw_of_give names hopening, once_eq (hnew.notDrawn _ hroot),
    bind_eq (labelOf_last _ (hnew.nonneg _ hroot) (hnew.notLabelled _ hroot)),
    node.outline_eq, hopening]
  rfl

theorem drawsOutline_of_ask {names : Names} {node high low : Node} {inputs : List Int}
    (hopening : node.opening = .ask inputs high low) (hhigh : DrawsOutline names high)
    (hlow : DrawsOutline names low) : DrawsOutline names node := by
  intro labelled drawn parts hnew
  have hroot := node.mark_mem_marks_outline
  rw [draw_of_ask names hopening, once_eq (hnew.notDrawn _ hroot),
    bind_eq (labelOf_last _ (hnew.nonneg _ hroot) (hnew.notLabelled _ hroot))]
  have houtline : node.outline = .test node.mark inputs high.outline low.outline := by
    rw [node.outline_eq, hopening]
  rw [houtline] at hnew ⊢
  -- The high side is drawn when the root is known, and the low side when the high side is, too.
  have hsides : AreNew (high.outline.marks ++ low.outline.marks) (labelled ++ [node.mark])
      (node.mark :: drawn) := AreNew.of_append_right hnew
  have hhighSide (parts : List Element) :=
    drawSide_eq_elements hhigh labelled.length true parts hsides.of_append_left
  have hlowSide (parts : List Element) :=
    drawSide_eq_elements hlow labelled.length false parts hsides.of_append_right
  simp only [List.length_append, List.length_singleton, Outline.length_marks] at hhighSide hlowSide
  rw [Outline.elements]
  -- The drawing ends where an input has no name: in this condition, or on one of the sides.
  cases names.joined " && " inputs with
  | error fault => rfl
  | ok text =>
    have hlift (s : Sketch) : (StateT.lift (.ok text) : Drawing String) s = .ok (text, s) := rfl
    rw [bind_eq (hlift _), bind_eq (add_eq _ _), bind_of_eq_map (hhighSide _)]
    cases high.outline.elements names (labelled.length + 1) with
    | error fault => rfl
    | ok first =>
      apply (hlowSide _).trans
      cases low.outline.elements names (labelled.length + 1 + high.outline.shapes) with
      | error fault => rfl
      | ok rest => simp [Except.map, Except.bind, bind, pure, Except.pure, Outline.marks]

/-- **Drawing**: a node whose numbers are new adds the parts of its outline. -/
theorem draw_eq_elements (names : Names) (node : Node) : DrawsOutline names node := by
  induction node using Diagram.opening_induction with
  | give node cell hopening => exact drawsOutline_of_give names hopening
  | ask node inputs high low hopening ihHigh ihLow =>
    exact drawsOutline_of_ask hopening ihHigh ihLow

end Drawing

/-! ## Flowcharts -/

namespace Node

/-- **Numbering**: the flowchart of a diagram with numbers of its own is that of its outline. -/
theorem flowchart_eq_elements (names : Names) {root : Node}
    (hnumbers : ∀ number ∈ root.marks, 0 ≤ number) (hnodup : root.marks.Nodup) :
    root.flowchart names = (root.outline.elements names 0).map fun parts => ⟨0, parts⟩ := by
  have hmarks := root.marks_outline_sublist
  have hnew : Drawing.AreNew root.outline.marks [] [] := by
    refine ⟨fun number hnumber => hnumbers number (hmarks.subset hnumber), hmarks.nodup hnodup,
      ?_, ?_⟩ <;> exact fun number _ => List.not_mem_nil
  -- The root gets the first label, and nothing else has been labelled or drawn.
  have hlabel := Drawing.labelOf_of_notMem (s := ⟨[], [], []⟩) (hnumbers _ root.mark_mem_marks)
    List.not_mem_nil
  have hdraw := Drawing.draw_eq_elements names root [] [] [] hnew
  rw [flowchart, StateT.run, Drawing.bind_eq hlabel, Drawing.bind_of_eq_map hdraw]
  cases root.outline.elements names 0 with
  | error fault => rfl
  | ok parts =>
    show Except.ok (Flowchart.mk 0 (parts.reverse ++ []).reverse) = .ok ⟨0, parts⟩
    rw [List.append_nil, List.reverse_reverse]

/-- The flowchart of a diagram with numbers of its own, whose inputs all have names, has a box for
    each result that the score counts, and one diamond less. -/
theorem exists_flowchart (names : Names) {root : Node}
    (hnumbers : ∀ number ∈ root.marks, 0 ≤ number) (htests : ∀ var ∈ root.tests, 0 ≤ var)
    (hnodup : root.marks.Nodup) :
    ∃ chart, root.flowchart names = .ok chart ∧
      chart.elements.countP Element.isResult = root.score ∧
      chart.elements.countP Element.isDecision = root.score - 1 := by
  obtain ⟨parts, hparts, hresults, hdecisions⟩ := root.outline.exists_elements names 0
    fun var hvar => htests var (root.inputs_outline_subset hvar)
  rw [root.results_outline] at hresults hdecisions
  refine ⟨⟨0, parts⟩, ?_, hresults, Nat.eq_sub_of_add_eq hdecisions⟩
  rw [flowchart_eq_elements names hnumbers hnodup, hparts]
  rfl

end Node

end Dichotomy
