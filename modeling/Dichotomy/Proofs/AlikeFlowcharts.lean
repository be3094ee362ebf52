import Dichotomy.Proofs.AlikeOutlines
import Dichotomy.Proofs.ChartTexts
import Dichotomy.Proofs.DrawnTests
import Dichotomy.Proofs.SameCode

/-!
# Flowcharts that are written alike

If the parts of two flowcharts are written alike, then nodes with one label are nodes with alike
outlines: both give cells that are written alike, or both ask for the same inputs and go on to
nodes that have one label again.  It does not matter which nodes are shared, and in which order
they have been drawn.

## Main statements

- `Flowchart.Shows.alike`: nodes with one label have alike outlines.
-/

namespace Dichotomy

theorem exists_mem_of_forall₂ {α β : Type} {r : α → β → Prop} {xs : List α} {ys : List β}
    (h : List.Forall₂ r xs ys) {x : α} (hx : x ∈ xs) : ∃ y ∈ ys, r x y := by
  induction h with
  | nil => cases hx
  | @cons first first' rest rest' hfirst _ ih =>
    rcases List.mem_cons.mp hx with rfl | hx
    · exact ⟨first', List.mem_cons_self, hfirst⟩
    · obtain ⟨y, hy, hxy⟩ := ih hx
      exact ⟨y, List.mem_cons_of_mem _ hy, hxy⟩

namespace Flowchart.Shows

variable {chart chart' : Flowchart} {names : Names} {root root' : Node} {labels labels' : List Int}
  {nodes nodes' : List Node} {same : Cell → Cell → Prop} {asks : String → String → Prop}

/-- Without names, conditions of shown nodes tell their inputs. -/
theorem inputs_eq_of_condition (h : chart.Shows names root labels nodes)
    (h' : chart'.Shows names root' labels' nodes') (hnames : names.texts = [])
    (htests : root.TestsInputs) (htests' : root'.TestsInputs)
    {node node' high low high' low' : Node} {inputs inputs' : List Int}
    (hnode : node ∈ nodes) (hnode' : node' ∈ nodes')
    (hopening : node.opening = .ask inputs high low)
    (hopening' : node'.opening = .ask inputs' high' low')
    (hcondition : names.condition inputs = names.condition inputs') : inputs = inputs' := by
  have hread := h.readCondition?_condition htests (.inl hnames) hnode hopening
  rw [hcondition, h'.readCondition?_condition htests' (.inl hnames) hnode' hopening'] at hread
  have hinputs : ∀ var ∈ inputs, 0 ≤ var := fun var hvar => htests var
    (Diagram.tests_subset_of_mem_parts (h.parts node hnode)
      (Diagram.tests_opening_subset hopening (List.mem_append_left _ hvar)))
  have hinputs' : ∀ var ∈ inputs', 0 ≤ var := fun var hvar => htests' var
    (Diagram.tests_subset_of_mem_parts (h'.parts node' hnode')
      (Diagram.tests_opening_subset hopening' (List.mem_append_left _ hvar)))
  have hposition : ∀ var, 0 ≤ var → (names.refer var).position = var := fun _ hvar =>
    Names.position_refer hnames hvar
  rw [← map_position_map hposition hinputs, ← Option.some.inj hread,
    map_position_map hposition hinputs']

/-- **Alike flowcharts**: without names, nodes with one label have alike outlines. -/
theorem alike (h : chart.Shows names root labels nodes)
    (h' : chart'.Shows names root' labels' nodes') (hnames : names.texts = [])
    (htests : root.TestsInputs) (htests' : root'.TestsInputs)
    (hasks : ∀ inputs inputs', asks (names.condition inputs) (names.condition inputs') →
      names.condition inputs = names.condition inputs')
    (helements : List.Forall₂ (Element.Alike same asks) chart.elements chart'.elements)
    {node node' : Node} (hnode : node ∈ nodes) (hnode' : node' ∈ nodes')
    (hlabel : labels.idxOf node.mark = labels'.idxOf node'.mark) :
    node.outline.Alike same node'.outline := by
  induction node using Diagram.opening_induction generalizing node' with
  | give node cell hopening =>
    have hbox : .result (labels.idxOf node.mark) cell ∈ chart.elements := by
      refine h.mem_elements.mpr ⟨node, hnode, ?_⟩
      rw [Node.elements_of_give hopening]
      exact List.mem_cons_self
    obtain ⟨element, helement, halike⟩ := exists_mem_of_forall₂ helements hbox
    cases halike with
    | result _ hsame =>
      obtain ⟨other, hother, hotherLabel, hopening'⟩ := h'.of_result helement
      obtain rfl := h'.eq_of_label hother hnode' (hotherLabel.trans hlabel)
      rw [Diagram.outline_eq, hopening, Diagram.outline_eq, hopening']
      exact .give _ _ hsame
  | ask node inputs high low hopening ihHigh ihLow =>
    have hmem : ∀ element ∈ Node.elements names labels node, ∃ element' ∈ chart'.elements,
        Element.Alike same asks element element' := fun element helement =>
      exists_mem_of_forall₂ helements (h.mem_elements.mpr ⟨node, hnode, helement⟩)
    rw [Node.elements_of_ask hopening] at hmem
    obtain ⟨diamond, hdiamond, halike⟩ := hmem _ List.mem_cons_self
    cases halike with
    | decision _ _ inputs' htext =>
      obtain ⟨other, hother, hotherLabel, rfl, high', low', hopening'⟩ := h'.of_decision hdiamond
      obtain rfl := h'.eq_of_label hother hnode' (hotherLabel.trans hlabel)
      obtain rfl := h.inputs_eq_of_condition h' hnames htests htests' hnode hnode' hopening
        hopening' (hasks _ _ htext)
      -- The edges for each outcome lead to labels of the sides.
      have hside (taken : Bool) : labels.idxOf (if taken then high else low).mark =
          labels'.idxOf (if taken then high' else low').mark := by
        obtain ⟨edge, hedge, halike⟩ := hmem
          (.edge (labels.idxOf node.mark) (labels.idxOf (if taken then high else low).mark) taken)
          (by cases taken <;> simp)
        cases halike with
        | edge _ target _ =>
          obtain ⟨source, hsource, hsourceLabel, _, _, _, hasked, htarget⟩ := h'.of_edge hedge
          obtain rfl := h'.eq_of_label hsource hnode' (hsourceLabel.trans hlabel)
          rw [hopening'] at hasked
          obtain ⟨-, rfl, rfl⟩ := Opening.ask.inj hasked
          exact htarget
      rw [Diagram.outline_eq, hopening, Diagram.outline_eq, hopening']
      refine .test _ _ inputs ?_ ?_
      · exact ihHigh (h.side_mem hnode hopening true) (h'.side_mem hnode' hopening' true)
          (hside true)
      · exact ihLow (h.side_mem hnode hopening false) (h'.side_mem hnode' hopening' false)
          (hside false)

end Flowchart.Shows

end Dichotomy
