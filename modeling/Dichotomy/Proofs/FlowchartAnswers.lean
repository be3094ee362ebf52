import Dichotomy.Proofs.FlowchartDrawing
import Dichotomy.Store

/-!
# Answers of flowcharts

The flowchart of a diagram whose nodes come from one store is a complete one: each label is
declared once, a decision has one edge for each outcome, and every edge ends at a label that is
declared.  Walking from the first label along the conditions ends in the box with the cell that
the diagram gives.

Nodes may be shared, and a node that some chain runs over may be drawn for the sake of another
path.  What matters is that a number names one node for good.

## Main statements

- `Node.exists_shows`: which nodes the flowchart of a stored diagram shows.
- `Flowchart.Shows.isComplete`, `Flowchart.Shows.ends_iff`: labels and edges, and where walks end.
- `Node.flowchart_answers`: flowcharts compute the diagram.
-/

namespace Dichotomy

/-! ## Nodes of one store -/

namespace Store

/-- Every node of a store is found in the other one under its number. -/
def Extends (s s' : Store) : Prop :=
  ∀ (number : Nat) (node : Node), s.nodes[number]? = some node → s'.nodes[number]? = some node

variable {s s' s'' : Store}

theorem Extends.refl (s : Store) : s.Extends s := fun _ _ h => h

theorem Extends.trans (h : s.Extends s') (h' : s'.Extends s'') : s.Extends s'' :=
  fun number node hget => h' number node (h number node hget)

theorem extends_push (s : Store) (node : Node) : s.Extends ⟨s.nodes.push node⟩ := by
  intro number other hget
  obtain ⟨hlt, -⟩ := Array.getElem?_eq_some_iff.mp hget
  rw [Array.getElem?_push_lt hlt, ← hget, Array.getElem?_eq_getElem hlt]

end Store

/-- A diagram all of whose nodes a store has handed out. -/
def Node.IsStored (s : Store) (root : Node) : Prop :=
  ∀ part ∈ root.parts, 0 ≤ part.mark ∧ s.nodes[part.mark.toNat]? = some part

namespace Node.IsStored

variable {s : Store} {root : Node}

/-- A number names one node. -/
theorem eq_of_mark (h : root.IsStored s) {node other : Node} (hnode : node ∈ root.parts)
    (hother : other ∈ root.parts) (hmark : node.mark = other.mark) : node = other := by
  have hget := (h node hnode).2
  rw [hmark, (h other hother).2] at hget
  exact (Option.some.inj hget).symm

/-- Stored diagrams stay stored when further nodes are made. -/
theorem extend {s' : Store} (h : root.IsStored s) (hextends : s.Extends s') : root.IsStored s' :=
  fun part hpart => ⟨(h part hpart).1, hextends _ _ (h part hpart).2⟩

end Node.IsStored

namespace Store

theorem isStored_addLeaf (s : Store) (cell : Cell) :
    (s.addLeaf cell).1.IsStored (s.addLeaf cell).2 := by
  intro part hpart
  obtain rfl := List.mem_singleton.mp hpart
  exact ⟨Int.natCast_nonneg _, by simp [addLeaf, Diagram.mark]⟩

/-- A branch over stored sides is stored. -/
theorem isStored_addBranch {s : Store} (var : Int) {high low : Node} (hhigh : high.IsStored s)
    (hlow : low.IsStored s) :
    (s.addBranch var high low).1.IsStored (s.addBranch var high low).2 := by
  intro part hpart
  rcases List.mem_cons.mp hpart with rfl | hpart
  · exact ⟨Int.natCast_nonneg _, by simp [addBranch, Diagram.mark]⟩
  · rcases List.mem_append.mp hpart with hpart | hpart
    · exact hhigh.extend (s.extends_push _) part hpart
    · exact hlow.extend (s.extends_push _) part hpart

end Store

/-! ## What a flowchart shows -/

namespace Element

/-- The label that a part declares. -/
def declared? : Element → Option Nat
  | result label _ => some label
  | decision label _ _ => some label
  | edge _ _ _ => none

/-- Whether a part is the edge that leaves a label when its condition comes out in a way. -/
def leaves (label : Nat) (taken : Bool) : Element → Bool
  | edge source _ way => source = label && way = taken
  | _ => false

end Element

/-- A flowchart that can be followed: the labels below `count` are declared once each, results
    have no edges, decisions one for each outcome, and all edges lead from decisions to labels. -/
structure Flowchart.IsComplete (chart : Flowchart) (count : Nat) : Prop where
  start : chart.start = 0
  declared : (chart.elements.filterMap Element.declared?).Perm (List.range count)
  result : ∀ label cell, .result label cell ∈ chart.elements → ∀ taken,
    chart.elements.filter (Element.leaves label taken) = []
  decision : ∀ label inputs text, .decision label inputs text ∈ chart.elements → ∀ taken,
    ∃ target, chart.elements.filter (Element.leaves label taken) = [.edge label target taken]
  edge : ∀ source target taken, .edge source target taken ∈ chart.elements →
    (∃ inputs text, .decision source inputs text ∈ chart.elements) ∧ target < count

/-- Reads a condition from its text. -/
def readCondition? (text : String) : Option (List Reference) :=
  condition? (.symbol "&&") [] (scan .between text.toList)

/-- Following a flowchart from a label ends in a box with a cell.  A decision is left by the edge
    for the outcome of its condition. -/
inductive Flowchart.Ends (chart : Flowchart) (values : Reference → Option Bool) :
    Nat → Cell → Prop where
  /-- A box is the end. -/
  | result {label : Nat} {cell : Cell} (h : .result label cell ∈ chart.elements) :
    Ends chart values label cell
  /-- Every input of the condition is looked up. -/
  | decision {label target : Nat} {inputs : List Int} {text : String} {taken : Bool} {cell : Cell}
    {condition : List Reference} (h : .decision label inputs text ∈ chart.elements)
    (hread : readCondition? text = some condition)
    (hholds : Program.holds values condition = .ok taken)
    (hedge : .edge label target taken ∈ chart.elements) (hrest : Ends chart values target cell) :
    Ends chart values label cell

/-- A flowchart shows some nodes of a diagram: the root, with a label of its own for each node,
    and with each node all that it goes on with. -/
structure Flowchart.Shows (chart : Flowchart) (names : Names) (root : Node) (labels : List Int)
    (nodes : List Node) : Prop where
  start : chart.start = 0
  first : labels.idxOf root.mark = 0
  elements : chart.elements.Perm (nodes.flatMap (Node.elements names labels))
  nodup : labels.Nodup
  marks : labels.Perm (nodes.map Diagram.mark)
  parts : ∀ node ∈ nodes, node ∈ root.parts
  shown : root ∈ nodes
  sides : ∀ node ∈ nodes, ∀ side ∈ node.sides, side ∈ nodes

/-- The flowchart of a stored diagram shows each of its nodes once. -/
theorem Node.exists_shows {s : Store} {root : Node} (names : Names) (hstored : root.IsStored s)
    (htests : ∀ var ∈ root.tests, 0 ≤ var) :
    ∃ chart labels nodes, root.flowchart names = .ok chart ∧
      chart.Shows names root labels nodes := by
  have hmarks : ∀ number ∈ root.marks, 0 ≤ number := by
    intro number hnumber
    rw [Diagram.marks_eq_map_parts] at hnumber
    obtain ⟨part, hpart, rfl⟩ := List.mem_map.mp hnumber
    exact (hstored part hpart).1
  obtain ⟨s₁, hlabel, hlabelled, hdrawn, hknown, hsub⟩ :=
    Drawing.exists_label (hmarks _ root.mark_mem_marks) ⟨[], [], []⟩
  obtain ⟨s₂, nodes, hdraw, hgrows, hsettles⟩ := Drawing.isDrawn names root hmarks htests s₁
  have hall := hlabelled.trans hgrows
  have hmarksDrawn : s₂.drawn.Perm (nodes.map Diagram.mark) := by simpa using hall.drawn
  have hparts : ∀ node ∈ nodes, node ∈ root.parts := by
    intro node hnode
    obtain ⟨other, hother, hpart⟩ := hsettles.parts node hnode
    exact List.mem_singleton.mp hother ▸ hpart
  -- What has been drawn is one of the nodes, since a number names one part of the diagram.
  have hmem : ∀ part ∈ root.parts, part.mark ∈ s₂.drawn → part ∈ nodes := by
    intro part hpart hmark
    obtain ⟨node, hnode, hsame⟩ := List.mem_map.mp (hmarksDrawn.mem_iff.mp hmark)
    exact hstored.eq_of_mark (hparts node hnode) hpart hsame ▸ hnode
  have hroot : root.mark ∈ s₂.drawn := hsettles.reached root List.mem_cons_self
  -- Nothing is left open, so labels have been given to just what has been drawn.
  have hlabels : s₂.labelled.Perm s₂.drawn := by
    rw [List.perm_ext_iff_of_nodup (hall.nodupLabelled .nil) (hall.nodupDrawn .nil)]
    intro mark
    constructor
    · intro hmark
      rcases hsettles.labelled mark hmark with hmark | hmark
      · have hfirst : mark = root.mark := by simpa using hsub hmark
        exact hfirst ▸ hroot
      · exact hmark
    · intro hmark
      obtain ⟨node, hnode, rfl⟩ := List.mem_map.mp (hmarksDrawn.mem_iff.mp hmark)
      exact hsettles.known node hnode
  have hfirst : Drawing.labelOf root ⟨[], [], []⟩ = .ok (0, ⟨[root.mark], [], []⟩) := by
    rw [Drawing.labelOf, if_neg (by have := hmarks _ root.mark_mem_marks; omega)]
    rfl
  obtain ⟨hzero, -⟩ := Prod.mk.inj (Except.ok.inj (hlabel.symm.trans hfirst))
  have hrun : (do
      let start ← Drawing.labelOf root
      Drawing.draw names root
      return start : Drawing Nat) ⟨[], [], []⟩ = .ok (0, s₂) := by
    rw [Drawing.bind_eq hlabel, Drawing.bind_eq hdraw, hzero]
    rfl
  refine ⟨⟨0, s₂.elements.reverse⟩, s₂.labelled, nodes, ?_, rfl, ?_, ?_,
    hall.nodupLabelled .nil, hlabels.trans hmarksDrawn, hparts, ?_, ?_⟩
  · simp only [flowchart, StateT.run, hrun]
    rfl
  · rw [idxOf_eq_of_labelled hgrows.labelled hknown, hzero]
  · have helements := hall.elements s₂.labelled (List.prefix_refl _)
    simp only [List.append_nil] at helements
    exact (List.reverse_perm _).trans helements
  · exact hmem root root.self_mem_parts hroot
  · intro node hnode side hside
    exact hmem side
      (Diagram.parts_subset_of_mem (hparts node hnode) (mem_parts_of_mem_sides hside))
      (hsettles.sides node hnode side hside)

/-! ## Parts of a shown node -/

namespace Node

variable {names : Names} {labels : List Int} {node : Node}

theorem elements_of_give {cell : Cell} (h : node.opening = .give cell) :
    node.elements names labels = [.result (labels.idxOf node.mark) cell] := by
  rw [elements, h]

theorem elements_of_ask {inputs : List Int} {high low : Node}
    (h : node.opening = .ask inputs high low) :
    node.elements names labels =
      [.decision (labels.idxOf node.mark) inputs (names.condition inputs),
        .edge (labels.idxOf node.mark) (labels.idxOf high.mark) true,
        .edge (labels.idxOf node.mark) (labels.idxOf low.mark) false] := by
  rw [elements, h]

/-- Each node declares its own label. -/
theorem filterMap_declared? :
    (node.elements names labels).filterMap Element.declared? = [labels.idxOf node.mark] := by
  unfold elements
  split <;> rfl

/-- Only the node itself has edges that leave its label. -/
theorem filter_leaves_of_ne {label : Nat} (h : labels.idxOf node.mark ≠ label) (taken : Bool) :
    (node.elements names labels).filter (Element.leaves label taken) = [] := by
  unfold elements
  split <;> simp [Element.leaves, h]

end Node

/-- Of lists that are empty but for one entry, that one is left. -/
theorem flatMap_eq_of_unique {α β : Type} {xs : List α} (hnodup : xs.Nodup) {x : α} (hx : x ∈ xs)
    {f : α → List β} (h : ∀ y ∈ xs, y ≠ x → f y = []) : xs.flatMap f = f x := by
  induction xs with
  | nil => cases hx
  | cons y xs ih =>
    obtain ⟨hy, hrest⟩ := List.nodup_cons.mp hnodup
    rw [List.flatMap_cons]
    rcases List.mem_cons.mp hx with rfl | hx
    · have hnone : xs.flatMap f = [] := List.flatMap_eq_nil_iff.mpr fun z hz =>
        h z (List.mem_cons_of_mem _ hz) fun hzx => hy (hzx ▸ hz)
      rw [hnone, List.append_nil]
    · rw [h y List.mem_cons_self fun hyx => hy (hyx ▸ hx), List.nil_append]
      exact ih hrest hx fun z hz => h z (List.mem_cons_of_mem _ hz)

namespace Flowchart.Shows

variable {chart : Flowchart} {names : Names} {root : Node} {labels : List Int}
  {nodes : List Node}

theorem nodup_marks (h : chart.Shows names root labels nodes) :
    (nodes.map Diagram.mark).Nodup := h.marks.nodup h.nodup

theorem mark_mem (h : chart.Shows names root labels nodes) {node : Node} (hnode : node ∈ nodes) :
    node.mark ∈ labels := h.marks.mem_iff.mpr (List.mem_map_of_mem hnode)

/-- Nodes with one label are one node. -/
theorem eq_of_label (h : chart.Shows names root labels nodes) {node other : Node}
    (hnode : node ∈ nodes) (hother : other ∈ nodes)
    (hlabel : labels.idxOf node.mark = labels.idxOf other.mark) : node = other :=
  List.inj_on_of_nodup_map h.nodup_marks hnode hother
    ((List.idxOf_inj (h.mark_mem hnode)).mp hlabel)

theorem mem_elements (h : chart.Shows names root labels nodes) {element : Element} :
    element ∈ chart.elements ↔ ∃ node ∈ nodes, element ∈ node.elements names labels := by
  rw [h.elements.mem_iff, List.mem_flatMap]

/-- A box belongs to a node that gives its cell. -/
theorem of_result (h : chart.Shows names root labels nodes) {label : Nat} {cell : Cell}
    (hmem : .result label cell ∈ chart.elements) :
    ∃ node ∈ nodes, labels.idxOf node.mark = label ∧ node.opening = .give cell := by
  obtain ⟨node, hnode, helement⟩ := h.mem_elements.mp hmem
  refine ⟨node, hnode, ?_⟩
  cases hopening : node.opening with
  | give other =>
    rw [Node.elements_of_give hopening, List.mem_singleton] at helement
    obtain ⟨rfl, rfl⟩ := Element.result.inj helement
    exact ⟨rfl, rfl⟩
  | ask inputs high low =>
    rw [Node.elements_of_ask hopening] at helement
    simp at helement

/-- A diamond belongs to a node that asks for its inputs. -/
theorem of_decision (h : chart.Shows names root labels nodes) {label : Nat} {inputs : List Int}
    {text : String} (hmem : .decision label inputs text ∈ chart.elements) :
    ∃ node ∈ nodes, labels.idxOf node.mark = label ∧ text = names.condition inputs ∧
      ∃ high low, node.opening = .ask inputs high low := by
  obtain ⟨node, hnode, helement⟩ := h.mem_elements.mp hmem
  refine ⟨node, hnode, ?_⟩
  cases hopening : node.opening with
  | give other =>
    rw [Node.elements_of_give hopening] at helement
    simp at helement
  | ask asked high low =>
    rw [Node.elements_of_ask hopening] at helement
    obtain ⟨rfl, rfl, rfl⟩ : label = labels.idxOf node.mark ∧ inputs = asked ∧
        text = names.condition asked := by
      simpa using helement
    exact ⟨rfl, rfl, high, low, rfl⟩

/-- An edge leads from a node to the side for its outcome. -/
theorem of_edge (h : chart.Shows names root labels nodes) {source target : Nat} {taken : Bool}
    (hmem : .edge source target taken ∈ chart.elements) :
    ∃ node ∈ nodes, labels.idxOf node.mark = source ∧ ∃ inputs high low,
      node.opening = .ask inputs high low ∧
        target = labels.idxOf (if taken then high else low).mark := by
  obtain ⟨node, hnode, helement⟩ := h.mem_elements.mp hmem
  refine ⟨node, hnode, ?_⟩
  cases hopening : node.opening with
  | give other =>
    rw [Node.elements_of_give hopening] at helement
    simp at helement
  | ask inputs high low =>
    rw [Node.elements_of_ask hopening] at helement
    obtain ⟨rfl, rfl⟩ : source = labels.idxOf node.mark ∧
        target = labels.idxOf (if taken then high else low).mark := by
      cases taken <;> simpa using helement
    exact ⟨rfl, inputs, high, low, rfl, rfl⟩

/-- The edges that leave a node. -/
theorem filter_leaves (h : chart.Shows names root labels nodes) {node : Node}
    (hnode : node ∈ nodes) (taken : Bool) :
    (chart.elements.filter (Element.leaves (labels.idxOf node.mark) taken)).Perm
      ((node.elements names labels).filter (Element.leaves (labels.idxOf node.mark) taken)) := by
  have hothers : ∀ other ∈ nodes, other ≠ node → (other.elements names labels).filter
      (Element.leaves (labels.idxOf node.mark) taken) = [] := fun other hother hne =>
    Node.filter_leaves_of_ne (fun hlabel => hne (h.eq_of_label hother hnode hlabel)) taken
  have hall := h.elements.filter (Element.leaves (labels.idxOf node.mark) taken)
  -- All other nodes have labels of their own.
  rw [List.filter_flatMap, flatMap_eq_of_unique h.nodup_marks.of_map hnode hothers] at hall
  exact hall

/-- The sides of a shown node are shown. -/
theorem side_mem (h : chart.Shows names root labels nodes) {node high low : Node}
    (hnode : node ∈ nodes) {inputs : List Int} (hopening : node.opening = .ask inputs high low)
    (taken : Bool) : (if taken then high else low) ∈ nodes := by
  refine h.sides node hnode _ ?_
  rw [Node.sides, hopening]
  cases taken <;> simp

/-! ## Labels and edges -/

theorem idxOf_lt (h : chart.Shows names root labels nodes) {node : Node} (hnode : node ∈ nodes) :
    labels.idxOf node.mark < labels.length := List.idxOf_lt_length_iff.mpr (h.mark_mem hnode)

theorem declared (h : chart.Shows names root labels nodes) :
    (chart.elements.filterMap Element.declared?).Perm (List.range labels.length) := by
  have hnodes : (nodes.flatMap (Node.elements names labels)).filterMap Element.declared? =
      (nodes.map Diagram.mark).map labels.idxOf := by
    simp only [List.filterMap_flatMap, Node.filterMap_declared?, List.map_map]
    exact List.map_eq_flatMap.symm
  have hlabels : labels.map labels.idxOf = List.range labels.length := by
    refine List.ext_getElem (by simp) fun i hi _ => ?_
    rw [List.getElem_map, List.getElem_range]
    exact h.nodup.idxOf_getElem i (by simpa using hi)
  have hall := h.elements.filterMap Element.declared?
  rw [hnodes] at hall
  exact hall.trans (hlabels ▸ (h.marks.map labels.idxOf).symm)

/-- **Labels and edges**: a flowchart that shows the nodes of a diagram is complete. -/
theorem isComplete (h : chart.Shows names root labels nodes) : chart.IsComplete labels.length where
  start := h.start
  declared := h.declared
  result label cell hmem taken := by
    obtain ⟨node, hnode, rfl, hopening⟩ := h.of_result hmem
    have hleaves := h.filter_leaves hnode taken
    rw [Node.elements_of_give hopening] at hleaves
    exact List.perm_nil.mp hleaves
  decision label inputs text hmem taken := by
    obtain ⟨node, hnode, rfl, -, high, low, hopening⟩ := h.of_decision hmem
    refine ⟨labels.idxOf (if taken then high else low).mark, ?_⟩
    have hleaves := h.filter_leaves hnode taken
    rw [Node.elements_of_ask hopening] at hleaves
    refine List.perm_singleton.mp ?_
    cases taken <;> simpa [Element.leaves] using hleaves
  edge source target taken hmem := by
    obtain ⟨node, hnode, rfl, inputs, high, low, hopening, rfl⟩ := h.of_edge hmem
    refine ⟨⟨inputs, names.condition inputs, h.mem_elements.mpr ⟨node, hnode, ?_⟩⟩,
      h.idxOf_lt (h.side_mem hnode hopening taken)⟩
    rw [Node.elements_of_ask hopening]
    exact List.mem_cons_self

/-! ## Walks -/

theorem covers (h : chart.Shows names root labels nodes) {a : Assignment}
    (hcovers : a.Covers root) {node : Node} (hnode : node ∈ nodes) : a.Covers node :=
  Diagram.covers_of_mem_parts hcovers (h.parts node hnode)

/-- The condition of a shown node is read back from its text. -/
theorem readCondition?_condition (h : chart.Shows names root labels nodes)
    (htests : ∀ var ∈ root.tests, 0 ≤ var) (hnames : names.AreParameters root.tests)
    {node high low : Node} (hnode : node ∈ nodes) {inputs : List Int}
    (hopening : node.opening = .ask inputs high low) :
    readCondition? (names.condition inputs) = some (inputs.map names.refer) := by
  have hsub : ∀ var ∈ inputs, var ∈ root.tests := fun var hvar =>
    Diagram.tests_subset_of_mem_parts (h.parts node hnode)
      (Diagram.tests_opening_subset hopening (List.mem_append_left _ hvar))
  have hne : inputs.map names.refer ≠ [] := fun hnil =>
    Diagram.inputs_ne_nil hopening (List.map_eq_nil_iff.mp hnil)
  have hlegible : ∀ reference ∈ inputs.map names.refer, reference.IsLegible := by
    intro reference hreference
    obtain ⟨var, hvar, rfl⟩ := List.mem_map.mp hreference
    exact Names.isLegible_refer hnames (hsub var hvar) (htests var (hsub var hvar))
  have hconnective : Scans " && ".toList [.symbol "&&"] := fun _ => rfl
  have hscan := scansUpTo_condition rfl (by decide) hconnective hne hlegible
  have hread := condition?_tokens (.symbol "&&") [] hne (by decide) (by decide) (by decide)
  rw [List.append_nil] at hread
  rw [readCondition?, Names.condition, hscan.scan_eq, hread]

/-- The outcome of a condition is whether all of its inputs are true. -/
theorem holds_condition (h : chart.Shows names root labels nodes)
    (hnames : names.AreParameters root.tests) {a : Assignment} (hcovers : a.Covers root)
    {node high low : Node} (hnode : node ∈ nodes) {inputs : List Int}
    (hopening : node.opening = .ask inputs high low) :
    Program.holds (Reference.value? names.texts a) (inputs.map names.refer) =
      .ok (inputs.all a.value) := by
  refine Program.holds_map fun var hvar => ?_
  have htested := Diagram.tests_subset_of_mem_parts (h.parts node hnode)
    (Diagram.tests_opening_subset hopening (List.mem_append_left _ hvar))
  exact Names.value?_refer hnames htested (hcovers var htested)

/-- A walk from a shown node ends where the node's evaluation does. -/
theorem ends_of_eval (h : chart.Shows names root labels nodes)
    (htests : ∀ var ∈ root.tests, 0 ≤ var) (hnames : names.AreParameters root.tests)
    {a : Assignment} (hcovers : a.Covers root) {node : Node} (hnode : node ∈ nodes) {cell : Cell}
    (heval : node.eval a = .ok cell) :
    chart.Ends (Reference.value? names.texts a) (labels.idxOf node.mark) cell := by
  induction node using Diagram.opening_induction with
  | give node other hopening =>
    rw [Diagram.eval_of_give hopening (h.covers hcovers hnode)] at heval
    obtain rfl : other = cell := Except.ok.inj heval
    refine .result (h.mem_elements.mpr ⟨node, hnode, ?_⟩)
    rw [Node.elements_of_give hopening]
    exact List.mem_cons_self
  | ask node inputs high low hopening ihHigh ihLow =>
    rw [Diagram.eval_of_ask hopening (h.covers hcovers hnode)] at heval
    have hmem : ∀ element ∈ Node.elements names labels node, element ∈ chart.elements :=
      fun element helement => h.mem_elements.mpr ⟨node, hnode, helement⟩
    rw [Node.elements_of_ask hopening] at hmem
    have hdecision := hmem _ List.mem_cons_self
    have hread := h.readCondition?_condition htests hnames hnode hopening
    have hholds := h.holds_condition hnames hcovers hnode hopening
    -- The walk takes the edge for the side that evaluation goes on with.
    cases htaken : inputs.all a.value with
    | true =>
      rw [htaken] at heval hholds
      exact .decision hdecision hread hholds (hmem _ (by simp))
        (ihHigh (h.side_mem hnode hopening true) heval)
    | false =>
      rw [htaken] at heval hholds
      exact .decision hdecision hread hholds (hmem _ (by simp))
        (ihLow (h.side_mem hnode hopening false) heval)

/-- Walks end nowhere else. -/
theorem eval_of_ends (h : chart.Shows names root labels nodes)
    (htests : ∀ var ∈ root.tests, 0 ≤ var) (hnames : names.AreParameters root.tests)
    {a : Assignment} (hcovers : a.Covers root) {label : Nat} {cell : Cell}
    (hends : chart.Ends (Reference.value? names.texts a) label cell) {node : Node}
    (hnode : node ∈ nodes) (hlabel : labels.idxOf node.mark = label) :
    node.eval a = .ok cell := by
  induction hends generalizing node with
  | result hmem =>
    obtain ⟨other, hother, hsame, hopening⟩ := h.of_result hmem
    obtain rfl := h.eq_of_label hother hnode (hsame.trans hlabel.symm)
    exact Diagram.eval_of_give hopening (h.covers hcovers hnode)
  | @decision label target inputs text taken cell condition hmem hread hholds hedge hrest ih =>
    obtain ⟨other, hother, hsame, rfl, high, low, hopening⟩ := h.of_decision hmem
    obtain rfl := h.eq_of_label hother hnode (hsame.trans hlabel.symm)
    -- The condition is the node's, and so is the edge.
    rw [h.readCondition?_condition htests hnames hnode hopening] at hread
    obtain rfl := Option.some.inj hread
    rw [h.holds_condition hnames hcovers hnode hopening] at hholds
    obtain rfl := Except.ok.inj hholds
    obtain ⟨source, hsource, hsame', inputs', high', low', hopening', rfl⟩ := h.of_edge hedge
    obtain rfl := h.eq_of_label hsource hnode (hsame'.trans hlabel.symm)
    rw [hopening] at hopening'
    obtain ⟨rfl, rfl, rfl⟩ := Opening.ask.inj hopening'
    have hside := ih (h.side_mem hnode hopening _) rfl
    rw [Diagram.eval_of_ask hopening (h.covers hcovers hnode)]
    cases htaken : inputs.all a.value <;> simpa [htaken] using hside

end Flowchart.Shows

/-! ## Flowcharts compute the diagram -/

/-- **Flowcharts compute the diagram**: the flowchart of a diagram whose nodes come from one
    store, shared or not, is complete.  With no names or different words for all tested inputs, a
    walk from the first label under an assignment that covers the diagram ends, and only ends, in
    a box with the cell that the diagram gives. -/
theorem Node.flowchart_answers {s : Store} {root : Node} (hstored : root.IsStored s)
    (htests : ∀ var ∈ root.tests, 0 ≤ var) (names : Names) :
    ∃ chart count, root.flowchart names = .ok chart ∧ chart.IsComplete count ∧
      (names.AreParameters root.tests → ∀ a : Assignment, a.Covers root →
        ∃ cell, root.eval a = .ok cell ∧
          ∀ ending, chart.Ends (Reference.value? names.texts a) chart.start ending ↔
            ending = cell) := by
  obtain ⟨chart, labels, nodes, hchart, hshows⟩ := exists_shows names hstored htests
  refine ⟨chart, labels.length, hchart, hshows.isComplete, fun hnames a hcovers => ?_⟩
  obtain ⟨cell, heval⟩ := Diagram.exists_eval hcovers
  refine ⟨cell, heval, fun ending => ?_⟩
  have hstart : labels.idxOf root.mark = chart.start := hshows.first.trans hshows.start.symm
  constructor
  · intro hends
    have hending := hshows.eval_of_ends htests hnames hcovers hends hshows.shown hstart
    exact Except.ok.inj (hending.symm.trans heval)
  · rintro rfl
    rw [← hstart]
    exact hshows.ends_of_eval htests hnames hcovers hshows.shown heval

/-- A chain over inputs 0 and 1 runs over a node that is drawn all the same, since it is also the
    low side of the root. -/
theorem Node.flowchart_answers_shared :
    let inner : Node := .branch 3 1 (.leaf 0 (.literal "yes")) (.leaf 1 (.literal "no"))
    let outer : Node := .branch 4 0 inner (.leaf 2 (.literal "no"))
    let root : Node := .branch 5 2 outer inner
    root.IsStored ⟨#[.leaf 0 (.literal "yes"), .leaf 1 (.literal "no"), .leaf 2 (.literal "no"),
        inner, outer, root]⟩ ∧
      (∀ var ∈ root.tests, 0 ≤ var) ∧ Names.none.AreParameters root.tests ∧
      Assignment.Covers [true, false, false] root ∧
      ∃ chart count, root.flowchart .none = .ok chart ∧ chart.IsComplete count ∧
        ∀ ending, chart.Ends (Reference.value? [] [true, false, false]) chart.start ending ↔
          ending = .literal "no" := by
  intro inner outer root
  have hstored : root.IsStored ⟨#[.leaf 0 (.literal "yes"), .leaf 1 (.literal "no"),
      .leaf 2 (.literal "no"), inner, outer, root]⟩ := by
    unfold IsStored
    decide
  have htests : ∀ var ∈ root.tests, 0 ≤ var := by decide
  have hnames : Names.none.AreParameters root.tests := .inl rfl
  have hcovers : Assignment.Covers [true, false, false] root := by
    unfold Assignment.Covers
    decide
  have heval : root.eval [true, false, false] = .ok (.literal "no") := rfl
  obtain ⟨chart, count, hchart, hcomplete, hends⟩ := flowchart_answers hstored htests .none
  obtain ⟨cell, hcell, hwalks⟩ := hends hnames _ hcovers
  obtain rfl : Cell.literal "no" = cell := Except.ok.inj (heval.symm.trans hcell)
  exact ⟨hstored, htests, hnames, hcovers, chart, count, hchart, hcomplete, hwalks⟩

/-- A stored branch on a negative input has no flowchart: without names, its input is looked up
    among them from the end. -/
theorem Node.flowchart_negative_input :
    let root : Node := .branch 2 (-1) (.leaf 0 (.literal "A")) (.leaf 1 (.literal "B"))
    root.IsStored ⟨#[.leaf 0 (.literal "A"), .leaf 1 (.literal "B"), root]⟩ ∧
      root.flowchart .none = .error (.noNames .outside) := by
  intro root
  refine ⟨by unfold IsStored; decide, ?_⟩
  have hopening : root.opening = .ask [-1] (.leaf 0 (.literal "A")) (.leaf 1 (.literal "B")) := rfl
  have hdraw : Drawing.draw .none root ⟨[2], [], []⟩ = .error (.noNames .outside) := by
    rw [Drawing.draw_of_ask .none hopening, Drawing.once_eq List.not_mem_nil]
    rfl
  have hlabel : Drawing.labelOf root ⟨[], [], []⟩ = .ok (0, ⟨[2], [], []⟩) := rfl
  have hrun : (do
      let start ← Drawing.labelOf root
      Drawing.draw .none root
      return start : Drawing Nat) ⟨[], [], []⟩ = .error (.noNames .outside) := by
    rw [Drawing.bind_eq hlabel]
    simp [bind, StateT.bind, hdraw, Except.bind]
  simp only [flowchart, StateT.run, hrun]
  rfl

end Dichotomy
