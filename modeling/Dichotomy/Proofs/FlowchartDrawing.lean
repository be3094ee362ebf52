import Dichotomy.Proofs.Phrases

/-!
# Drawing a shared diagram

Nodes of a flowchart are told apart by their numbers, so a diagram whose nodes are shared is drawn
node by node.  When a node has been drawn, everything it goes on with has been drawn, and what has
been added is, up to its order, the shape of each new node with the edges that leave it.

Labels are positions in a list that only ever grows at its end.  Parts are therefore described for
any list that goes on from the labels given so far.

## Main statements

- `Drawing.Grows`, `Drawing.Settles`: what is added, and that nothing is left open.
- `Drawing.isDrawn`: every node with numbers is drawn.
-/

namespace Dichotomy

/-! ## The parts of one node -/

/-- The text of a condition. -/
def Names.condition (names : Names) (inputs : List Int) : String :=
  " && ".intercalate ((inputs.map names.refer).map Reference.text)

namespace Node

/-- What a node goes on with. -/
def sides (node : Node) : List Node :=
  match node.opening with
  | .give _ => []
  | .ask _ high low => [high, low]

theorem mem_parts_of_mem_sides {node side : Node} (h : side ∈ node.sides) : side ∈ node.parts := by
  unfold sides at h
  split at h
  next => cases h
  next inputs high low hopening =>
    have hsub := (Diagram.parts_opening_sublist hopening).subset
    simp only [List.mem_cons, List.not_mem_nil, or_false] at h
    rcases h with rfl | rfl
    · exact hsub (List.mem_cons_of_mem _ (List.mem_append_left _ side.self_mem_parts))
    · exact hsub (List.mem_cons_of_mem _ (List.mem_append_right _ side.self_mem_parts))

/-- The parts that a node adds to a flowchart, the label of a node being the position of its
    number. -/
def elements (names : Names) (labelled : List Int) (node : Node) : List Element :=
  match node.opening with
  | .give cell => [.result (labelled.idxOf node.mark) cell]
  | .ask inputs high low =>
    [.decision (labelled.idxOf node.mark) inputs (names.condition inputs),
      .edge (labelled.idxOf node.mark) (labelled.idxOf high.mark) true,
      .edge (labelled.idxOf node.mark) (labelled.idxOf low.mark) false]

end Node

/-- Labels stay as they are when more are given. -/
theorem idxOf_eq_of_labelled {labelled more : List Int} (h : labelled <+: more) {mark : Int}
    (hmark : mark ∈ labelled) : more.idxOf mark = labelled.idxOf mark := by
  obtain ⟨rest, rfl⟩ := h
  exact List.idxOf_append_of_mem hmark

namespace Drawing

/-! ## Growing sketches -/

/-- One sketch continues another: it has drawn some more nodes, and added some more parts. -/
structure Grows (s s' : Sketch) (nodes : List Node) (added : List Int → List Element) : Prop where
  labelled : s.labelled <+: s'.labelled
  nodupLabelled : s.labelled.Nodup → s'.labelled.Nodup
  drawn : s'.drawn.Perm (nodes.map Diagram.mark ++ s.drawn)
  nodupDrawn : s.drawn.Nodup → s'.drawn.Nodup
  elements : ∀ labels, s'.labelled <+: labels → s'.elements.Perm (added labels ++ s.elements)

namespace Grows

variable {s s' s'' : Sketch} {nodes nodes' : List Node} {added added' : List Int → List Element}

theorem refl (s : Sketch) : Grows s s [] fun _ => [] :=
  ⟨List.prefix_refl _, id, .refl _, id, fun _ _ => .refl _⟩

theorem trans (h : Grows s s' nodes added) (h' : Grows s' s'' nodes' added') :
    Grows s s'' (nodes' ++ nodes) fun labels => added' labels ++ added labels where
  labelled := h.labelled.trans h'.labelled
  nodupLabelled hnodup := h'.nodupLabelled (h.nodupLabelled hnodup)
  drawn := by
    rw [List.map_append, List.append_assoc]
    exact h'.drawn.trans (h.drawn.append_left _)
  nodupDrawn hnodup := h'.nodupDrawn (h.nodupDrawn hnodup)
  elements labels hlabels := by
    rw [List.append_assoc]
    exact (h'.elements labels hlabels).trans
      ((h.elements labels (h'.labelled.trans hlabels)).append_left _)

/-- Parts may be described in another order. -/
theorem congr (h : Grows s s' nodes added)
    (hperm : ∀ labels, s'.labelled <+: labels → (added labels).Perm (added' labels)) :
    Grows s s' nodes added' :=
  ⟨h.labelled, h.nodupLabelled, h.drawn, h.nodupDrawn, fun labels hlabels =>
    (h.elements labels hlabels).trans ((hperm labels hlabels).append_right _)⟩

theorem drawn_subset (h : Grows s s' nodes added) : s.drawn ⊆ s'.drawn := fun _ hmem =>
  h.drawn.mem_iff.mpr (List.mem_append_right _ hmem)

/-- A node is visited once. -/
theorem visited {node : Node} (h : node.mark ∉ s.drawn) :
    Grows s { s with drawn := node.mark :: s.drawn } [node] fun _ => [] :=
  ⟨List.prefix_refl _, id, .refl _, fun hnodup => List.nodup_cons.mpr ⟨h, hnodup⟩,
    fun _ _ => .refl _⟩

theorem single (s : Sketch) (element : Element) :
    Grows s { s with elements := element :: s.elements } [] fun _ => [element] :=
  ⟨List.prefix_refl _, id, .refl _, id, fun _ _ => .refl _⟩

end Grows

/-- A numbered node has a label, or gets the next one. -/
theorem exists_label {node : Node} (h : 0 ≤ node.mark) (s : Sketch) :
    ∃ s', labelOf node s = .ok (s'.labelled.idxOf node.mark, s') ∧ Grows s s' [] (fun _ => []) ∧
      s'.drawn = s.drawn ∧ node.mark ∈ s'.labelled ∧ s'.labelled ⊆ node.mark :: s.labelled := by
  by_cases hmem : node.mark ∈ s.labelled
  · exact ⟨s, labelOf_of_mem h hmem, .refl s, rfl, hmem, List.subset_cons_self _ _⟩
  · -- The next label is the number of those given so far, where the mark is put.
    rw [labelOf_of_notMem h hmem]
    refine ⟨{ s with labelled := s.labelled ++ [node.mark] }, ?_, ?_, rfl, ?_, ?_⟩
    · simp [List.idxOf_append_of_notMem hmem]
    · refine ⟨List.prefix_append _ _, fun hnodup => ?_, .refl _, id, fun _ _ => .refl _⟩
      exact List.nodup_append.mpr ⟨hnodup, List.nodup_singleton _, by
        rintro a ha b hb rfl
        exact hmem (List.mem_singleton.mp hb ▸ ha)⟩
    · exact List.mem_append_right _ List.mem_cons_self
    · intro mark hmark
      rcases List.mem_append.mp hmark with hmark | hmark
      · exact List.mem_cons_of_mem _ hmark
      · exact List.mem_singleton.mp hmark ▸ List.mem_cons_self

/-! ## Nothing left open -/

/-- After some nodes have been drawn from given roots, nothing is left open: what has a label is
    drawn, unless it had its label before, and so is all that the new nodes go on with. -/
structure Settles (s s' : Sketch) (roots nodes : List Node) : Prop where
  reached : ∀ root ∈ roots, root.mark ∈ s'.drawn
  labelled : ∀ mark ∈ s'.labelled, mark ∈ s.labelled ∨ mark ∈ s'.drawn
  known : ∀ node ∈ nodes, node.mark ∈ s'.labelled
  sides : ∀ node ∈ nodes, ∀ side ∈ node.sides, side.mark ∈ s'.drawn
  parts : ∀ node ∈ nodes, ∃ root ∈ roots, node ∈ root.parts

namespace Settles

variable {s s' s'' : Sketch} {roots roots' nodes nodes' : List Node}
  {added : List Int → List Element}

theorem trans (h : Settles s s' roots nodes) (h' : Settles s' s'' roots' nodes')
    (hgrows : Grows s' s'' nodes' added) :
    Settles s s'' (roots ++ roots') (nodes' ++ nodes) where
  reached root hroot := by
    rcases List.mem_append.mp hroot with hroot | hroot
    · exact hgrows.drawn_subset (h.reached root hroot)
    · exact h'.reached root hroot
  labelled mark hmark := by
    rcases h'.labelled mark hmark with hmark | hmark
    · exact (h.labelled mark hmark).imp_right fun hdrawn => hgrows.drawn_subset hdrawn
    · exact .inr hmark
  known node hnode := by
    rcases List.mem_append.mp hnode with hnode | hnode
    · exact h'.known node hnode
    · exact hgrows.labelled.subset (h.known node hnode)
  sides node hnode side hside := by
    rcases List.mem_append.mp hnode with hnode | hnode
    · exact h'.sides node hnode side hside
    · exact hgrows.drawn_subset (h.sides node hnode side hside)
  parts node hnode := by
    rcases List.mem_append.mp hnode with hnode | hnode
    · obtain ⟨root, hroot, hpart⟩ := h'.parts node hnode
      exact ⟨root, List.mem_append_right _ hroot, hpart⟩
    · obtain ⟨root, hroot, hpart⟩ := h.parts node hnode
      exact ⟨root, List.mem_append_left _ hroot, hpart⟩

/-- A part that is added opens nothing. -/
theorem single (s : Sketch) (element : Element) :
    Settles s { s with elements := element :: s.elements } [] [] := by
  refine ⟨?_, fun mark hmark => .inl hmark, ?_, ?_, ?_⟩
  all_goals
    intro node hnode
    cases hnode

/-- A node is settled when its sides are: it has been visited, and its label is the only new one
    before them. -/
theorem root {node : Node} (hvisited : node.mark ∈ s'.drawn) (hknown : node.mark ∈ s'.labelled)
    (hsub : s'.labelled ⊆ node.mark :: s.labelled) (hgrows : Grows s' s'' nodes added)
    (h : Settles s' s'' node.sides nodes) : Settles s s'' [node] (nodes ++ [node]) where
  reached other hother := by
    obtain rfl := List.mem_singleton.mp hother
    exact hgrows.drawn_subset hvisited
  labelled mark hmark := by
    rcases h.labelled mark hmark with hmark | hmark
    · rcases List.mem_cons.mp (hsub hmark) with rfl | hmark
      · exact .inr (hgrows.drawn_subset hvisited)
      · exact .inl hmark
    · exact .inr hmark
  known other hother := by
    rcases List.mem_append.mp hother with hother | hother
    · exact h.known other hother
    · obtain rfl := List.mem_singleton.mp hother
      exact hgrows.labelled.subset hknown
  sides other hother side hside := by
    rcases List.mem_append.mp hother with hother | hother
    · exact h.sides other hother side hside
    · obtain rfl := List.mem_singleton.mp hother
      exact h.reached side hside
  parts other hother := by
    refine ⟨node, List.mem_cons_self, ?_⟩
    rcases List.mem_append.mp hother with hother | hother
    · obtain ⟨side, hside, hpart⟩ := h.parts other hother
      exact Diagram.parts_subset_of_mem (Node.mem_parts_of_mem_sides hside) hpart
    · exact List.mem_singleton.mp hother ▸ node.self_mem_parts

end Settles

/-! ## Drawing -/

/-- Drawing a node succeeds, adds the parts of the nodes that are new, and leaves nothing open. -/
def IsDrawn (names : Names) (node : Node) : Prop :=
  ∀ s : Sketch, ∃ s' nodes, draw names node s = .ok ((), s') ∧
    Grows s s' nodes (fun labels => nodes.flatMap (Node.elements names labels)) ∧
    Settles s s' [node] nodes

/-- A side is drawn with the edge to it. -/
theorem exists_drawnSide {names : Names} {side : Node} (source : Nat) (taken : Bool)
    (hmark : 0 ≤ side.mark) (hdraws : IsDrawn names side) (s : Sketch) :
    ∃ s' nodes, drawSide names source taken side s = .ok ((), s') ∧
      Grows s s' nodes (fun labels => .edge source (labels.idxOf side.mark) taken ::
        nodes.flatMap (Node.elements names labels)) ∧
      Settles s s' [side] nodes := by
  obtain ⟨s₁, hlabel, hlabelled, -, hknown, hsub⟩ := exists_label hmark s
  obtain ⟨s₂, nodes, hdraw, hgrows, hsettles⟩ := hdraws s₁
  have hedge := Grows.single s₂ (.edge source (s₁.labelled.idxOf side.mark) taken)
  rw [drawSide, bind_eq hlabel, bind_eq hdraw]
  refine ⟨_, nodes, add_eq _ _, ?_, ?_⟩
  · have hall := (hlabelled.trans hgrows).trans hedge
    simp only [List.append_nil, List.nil_append] at hall
    refine hall.congr fun labels hlabels => ?_
    rw [idxOf_eq_of_labelled (hgrows.labelled.trans hlabels) hknown]
    exact .refl _
  · -- The label of the side is the only one that is given before the side is drawn.
    refine ⟨hsettles.reached, fun mark hmark => ?_, hsettles.known, hsettles.sides, hsettles.parts⟩
    rcases hsettles.labelled mark hmark with hmark | hmark
    · rcases List.mem_cons.mp (hsub hmark) with rfl | hmark
      · exact .inr (hsettles.reached side List.mem_cons_self)
      · exact .inl hmark
    · exact .inr hmark

/-- A node that has been drawn is passed over. -/
theorem once_eq_of_mem {node : Node} {s : Sketch} (h : node.mark ∈ s.drawn)
    (drawing : Drawing Unit) : once node drawing s = .ok ((), s) := by
  have hvisit : visit node s = .ok (true, s) := by
    rw [visit, List.contains_iff_mem.mpr h]
    rfl
  rw [once, bind_eq hvisit]
  rfl

/-- A node that has been drawn before adds nothing. -/
theorem isDrawn_of_mem (names : Names) {node : Node} {s : Sketch} (h : node.mark ∈ s.drawn) :
    ∃ s' nodes, draw names node s = .ok ((), s') ∧
      Grows s s' nodes (fun labels => nodes.flatMap (Node.elements names labels)) ∧
      Settles s s' [node] nodes := by
  have hdraw : draw names node s = .ok ((), s) := by
    rw [draw]
    exact once_eq_of_mem h _
  refine ⟨s, [], hdraw, .refl s, ?_, fun mark hmark => .inl hmark, ?_, ?_, ?_⟩
  · intro root hroot
    obtain rfl := List.mem_singleton.mp hroot
    exact h
  all_goals
    intro node hnode
    cases hnode

theorem isDrawn_of_give (names : Names) {node : Node} {cell : Cell}
    (hopening : node.opening = .give cell) (hmark : 0 ≤ node.mark) : IsDrawn names node := by
  intro s
  by_cases hmem : node.mark ∈ s.drawn
  · exact isDrawn_of_mem names hmem
  obtain ⟨s₁, hlabel, hlabelled, hdrawn, hknown, hsub⟩ :=
    exists_label hmark { s with drawn := node.mark :: s.drawn }
  let box : Element := .result (s₁.labelled.idxOf node.mark) cell
  have hbox := Grows.single s₁ box
  have hsettles : Settles s₁ { s₁ with elements := box :: s₁.elements } node.sides [] := by
    rw [Node.sides, hopening]
    exact .single s₁ box
  rw [draw_of_give names hopening, once_eq hmem, bind_eq hlabel]
  refine ⟨_, _, add_eq _ _, (((Grows.visited hmem).trans hlabelled).trans hbox).congr ?_,
    hsettles.root (hdrawn ▸ List.mem_cons_self) hknown hsub hbox⟩
  intro labels hlabels
  simp only [List.nil_append, List.append_nil, List.flatMap_singleton]
  rw [Node.elements, hopening, idxOf_eq_of_labelled hlabels hknown]

theorem isDrawn_of_ask (names : Names) {node high low : Node} {inputs : List Int}
    (hopening : node.opening = .ask inputs high low) (hmark : 0 ≤ node.mark)
    (hhighMark : 0 ≤ high.mark) (hlowMark : 0 ≤ low.mark) (hinputs : ∀ var ∈ inputs, 0 ≤ var)
    (hhigh : IsDrawn names high) (hlow : IsDrawn names low) : IsDrawn names node := by
  intro s
  by_cases hmem : node.mark ∈ s.drawn
  · exact isDrawn_of_mem names hmem
  obtain ⟨s₁, hlabel, hlabelled, hdrawn, hknown, hsub⟩ :=
    exists_label hmark { s with drawn := node.mark :: s.drawn }
  have htext : (StateT.lift (names.joined " && " inputs) : Drawing String) s₁ =
      .ok (names.condition inputs, s₁) := by
    rw [names.joined_eq _ hinputs]
    rfl
  -- The diamond, the high side with its edge, and the low side with its edge.
  let diamond : Element :=
    .decision (s₁.labelled.idxOf node.mark) inputs (names.condition inputs)
  have hdiamond := Grows.single s₁ diamond
  obtain ⟨s₂, highNodes, hdrawHigh, hhighGrows, hhighSettles⟩ :=
    exists_drawnSide (s₁.labelled.idxOf node.mark) true hhighMark hhigh
      { s₁ with elements := diamond :: s₁.elements }
  obtain ⟨s₃, lowNodes, hdrawLow, hlowGrows, hlowSettles⟩ :=
    exists_drawnSide (s₁.labelled.idxOf node.mark) false hlowMark hlow s₂
  have hgrows := (hdiamond.trans hhighGrows).trans hlowGrows
  have hsettles : Settles s₁ s₃ node.sides (lowNodes ++ highNodes) := by
    have hboth := ((Settles.single s₁ diamond).trans hhighSettles hhighGrows).trans
      hlowSettles hlowGrows
    rw [Node.sides, hopening]
    simpa using hboth
  simp only [List.append_nil] at hgrows
  rw [draw_of_ask names hopening, once_eq hmem, bind_eq hlabel, bind_eq htext,
    bind_eq (add_eq _ _), bind_eq hdrawHigh]
  refine ⟨s₃, _, hdrawLow, (((Grows.visited hmem).trans hlabelled).trans hgrows).congr ?_,
    hsettles.root (hdrawn ▸ List.mem_cons_self) hknown hsub hgrows⟩
  intro labels hlabels
  have hnode : labels.idxOf node.mark = s₁.labelled.idxOf node.mark :=
    idxOf_eq_of_labelled (hgrows.labelled.trans hlabels) hknown
  have helements : Node.elements names labels node = [diamond,
      .edge (s₁.labelled.idxOf node.mark) (labels.idxOf high.mark) true,
      .edge (s₁.labelled.idxOf node.mark) (labels.idxOf low.mark) false] := by
    rw [Node.elements, hopening, ← hnode]
    simp only [diamond, hnode]
  -- The edges stand behind the parts of the sides they lead to.
  rw [List.perm_iff_count]
  intro element
  simp only [List.flatMap_append, List.flatMap_singleton, List.flatMap_nil, helements,
    List.count_append, List.count_cons, List.count_nil, List.append_nil]
  omega

/-- **Drawing**: every node with numbers is drawn, whatever has been drawn before. -/
theorem isDrawn (names : Names) (node : Node) (hmarks : ∀ number ∈ node.marks, 0 ≤ number)
    (htests : ∀ var ∈ node.tests, 0 ≤ var) : IsDrawn names node := by
  induction node using Diagram.opening_induction with
  | give node cell hopening => exact isDrawn_of_give names hopening (hmarks _ node.mark_mem_marks)
  | ask node inputs high low hopening ihHigh ihLow =>
    have hsub := (Diagram.marks_opening_sublist hopening).subset
    have htested := Diagram.tests_opening_subset hopening
    have hhighMarks : ∀ number ∈ high.marks, 0 ≤ number := fun number hnumber =>
      hmarks number (hsub (List.mem_cons_of_mem _ (List.mem_append_left _ hnumber)))
    have hlowMarks : ∀ number ∈ low.marks, 0 ≤ number := fun number hnumber =>
      hmarks number (hsub (List.mem_cons_of_mem _ (List.mem_append_right _ hnumber)))
    have hhigh : IsDrawn names high := ihHigh hhighMarks fun var hvar =>
      htests var (htested (List.mem_append_right _ (List.mem_append_left _ hvar)))
    have hlow : IsDrawn names low := ihLow hlowMarks fun var hvar =>
      htests var (htested (List.mem_append_right _ (List.mem_append_right _ hvar)))
    exact isDrawn_of_ask names hopening (hmarks _ node.mark_mem_marks)
      (hhighMarks _ high.mark_mem_marks) (hlowMarks _ low.mark_mem_marks)
      (fun var hvar => htests var (htested (List.mem_append_left _ hvar))) hhigh hlow

end Drawing

end Dichotomy
