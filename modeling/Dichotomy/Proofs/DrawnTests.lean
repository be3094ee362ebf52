import Dichotomy.Proofs.FlowchartAnswers

/-!
# Tests of drawn diagrams

Without names, a condition can be written only for inputs from `0` on.  A flowchart writes the
condition of each node, so a stored diagram that has a flowchart tests no other inputs.

A node that has been drawn before is passed over.  Its tests have been looked at by then, unless it
is still being drawn; but then it is above the node that is drawn next, not the same.

## Main statements

- `Drawing.checks`: drawing looks at all tests.
- `Node.nonneg_of_flowchart`: the tests of a diagram that has a flowchart.
-/

namespace Dichotomy

namespace Diagram

variable {ι : Type} {d : Diagram ι}

theorem tests_of_give {cell : Cell} (h : d.opening = .give cell) : d.tests = [] := by
  have hall := d.perm_inputs_outline
  rw [outline_eq, h] at hall
  exact List.perm_nil.mp hall.symm

/-- What a diagram tests, it asks first or later. -/
theorem perm_tests_of_ask {inputs : List Int} {high low : Diagram ι}
    (h : d.opening = .ask inputs high low) :
    d.tests.Perm (inputs ++ (high.tests ++ low.tests)) := by
  have hall := d.perm_inputs_outline
  rw [outline_eq, h] at hall
  exact hall.symm.trans
    ((high.perm_inputs_outline.append low.perm_inputs_outline).append_left inputs)

/-- Only inputs from `0` on are tested. -/
def TestsInputs (d : Diagram ι) : Prop := ∀ var ∈ d.tests, 0 ≤ var

theorem testsInputs_of_give {cell : Cell} (h : d.opening = .give cell) : d.TestsInputs := by
  rw [TestsInputs, tests_of_give h]
  exact fun _ hvar => absurd hvar List.not_mem_nil

theorem testsInputs_of_ask {inputs : List Int} {high low : Diagram ι}
    (h : d.opening = .ask inputs high low) (hinputs : ∀ var ∈ inputs, 0 ≤ var)
    (hhigh : high.TestsInputs) (hlow : low.TestsInputs) : d.TestsInputs := by
  intro var hvar
  have hasked := (perm_tests_of_ask h).mem_iff.mp hvar
  rw [List.mem_append, List.mem_append] at hasked
  rcases hasked with hasked | hasked | hasked
  · exact hinputs var hasked
  · exact hhigh var hasked
  · exact hlow var hasked

end Diagram

namespace Names

variable {names : Names}

/-- Without names, an input that is called by its position is one from `0` on. -/
theorem nonneg_of_nameOf (hnames : names.texts = []) {var : Int} {name : String}
    (h : names.nameOf var = .ok name) : 0 ≤ var := by
  by_contra hneg
  have hlt : var < (names.texts.length : Nat) := by omega
  have hnone : entryAt? names.texts var = Option.none := by
    simp [entryAt?, hnames, hneg]
  rw [nameOf, if_pos hlt, atPosition, hnone] at h
  cases h

theorem nonneg_of_joined (hnames : names.texts = []) {between text : String} {vars : List Int}
    (h : names.joined between vars = .ok text) : ∀ var ∈ vars, 0 ≤ var := by
  intro var hvar
  rw [joined] at h
  obtain ⟨written, hwritten, -⟩ := exists_of_bind_eq_ok h
  obtain ⟨name, -, hname⟩ := exists_of_mapM_eq_ok hwritten var hvar
  exact nonneg_of_nameOf hnames hname

end Names

namespace Drawing

variable {names : Names}

/-! ## Steps that have succeeded -/

theorem exists_of_bind {α β : Type} {x : Drawing α} {f : α → Drawing β} {s s'' : Sketch} {b : β}
    (h : (x >>= f) s = .ok (b, s'')) : ∃ a s', x s = .ok (a, s') ∧ f a s' = .ok (b, s'') := by
  obtain ⟨result, hx, hf⟩ := exists_of_bind_eq_ok h
  exact ⟨result.1, result.2, hx, hf⟩

theorem eq_of_lift {α : Type} {x : Except Fault α} {s s' : Sketch} {a : α}
    (h : (StateT.lift x : Drawing α) s = .ok (a, s')) : x = .ok a ∧ s' = s := by
  cases x with
  | error fault => cases h
  | ok result =>
    obtain ⟨rfl, rfl⟩ := Prod.mk.inj (Except.ok.inj h)
    exact ⟨rfl, rfl⟩

/-- Labels do not matter to what has been drawn. -/
theorem drawn_of_labelOf {node : Node} {s s' : Sketch} {label : Nat}
    (h : labelOf node s = .ok (label, s')) : s'.drawn = s.drawn := by
  rw [labelOf] at h
  split at h
  · cases h
  · split at h
    · obtain ⟨-, rfl⟩ := Prod.mk.inj (Except.ok.inj h)
      rfl
    · obtain ⟨-, rfl⟩ := Prod.mk.inj (Except.ok.inj h)
      rfl

theorem exists_of_drawSide {source : Nat} {taken : Bool} {side : Node} {s s' : Sketch}
    (h : drawSide names source taken side s = .ok ((), s')) :
    ∃ s₁ s₂, s₁.drawn = s.drawn ∧ draw names side s₁ = .ok ((), s₂) ∧ s'.drawn = s₂.drawn := by
  rw [drawSide] at h
  obtain ⟨label, s₁, hlabel, h⟩ := exists_of_bind h
  obtain ⟨_, s₂, hdraw, h⟩ := exists_of_bind h
  rw [add_eq] at h
  obtain ⟨-, rfl⟩ := Prod.mk.inj (Except.ok.inj h)
  exact ⟨s₁, s₂, drawn_of_labelOf hlabel, hdraw, rfl⟩

/-! ## Drawing looks at all tests -/

/-- What has been drawn tests inputs only, or has more decisions than a given number. -/
def Checked (root : Node) (decisions : Nat) (s : Sketch) : Prop :=
  ∀ part ∈ root.parts, part.mark ∈ s.drawn → part.TestsInputs ∨ decisions < part.decisions

/-- If a part of a diagram can be drawn, it tests inputs only, and so does all that is drawn with
    it. -/
def Checks (names : Names) (root node : Node) : Prop :=
  ∀ s s' : Sketch, draw names node s = .ok ((), s') → Checked root node.decisions s →
    node.TestsInputs ∧
      ∀ part ∈ root.parts, part.mark ∈ s'.drawn → part.TestsInputs ∨ part.mark ∈ s.drawn

variable {root node : Node}

theorem Checks.drawSide (h : Checks names root node) {source : Nat} {taken : Bool} {s s' : Sketch}
    (hdraw : drawSide names source taken node s = .ok ((), s'))
    (hchecked : Checked root node.decisions s) :
    node.TestsInputs ∧
      ∀ part ∈ root.parts, part.mark ∈ s'.drawn → part.TestsInputs ∨ part.mark ∈ s.drawn := by
  obtain ⟨s₁, s₂, hfirst, hnode, hlast⟩ := exists_of_drawSide hdraw
  rw [Checked, ← hfirst] at hchecked
  rw [hlast, ← hfirst]
  exact h s₁ s₂ hnode hchecked

/-- A node that has been drawn before is not the one that is being drawn. -/
theorem checks_of_mem (hpart : node ∈ root.parts) {s s' : Sketch} (hmem : node.mark ∈ s.drawn)
    (hdraw : draw names node s = .ok ((), s')) (hchecked : Checked root node.decisions s) :
    node.TestsInputs ∧
      ∀ part ∈ root.parts, part.mark ∈ s'.drawn → part.TestsInputs ∨ part.mark ∈ s.drawn := by
  have hsame : draw names node s = .ok ((), s) := by
    rw [draw]
    exact once_eq_of_mem hmem _
  obtain ⟨-, rfl⟩ := Prod.mk.inj (Except.ok.inj (hdraw.symm.trans hsame))
  exact ⟨(hchecked node hpart hmem).resolve_right (lt_irrefl _), fun _ _ hmark => .inr hmark⟩

section Begun

variable (hmark : ∀ part ∈ root.parts, ∀ other ∈ root.parts, part.mark = other.mark → part = other)
  (hpart : node ∈ root.parts) {s s' : Sketch} (hdrawn : s'.drawn = node.mark :: s.drawn)

include hmark hpart hdrawn

/-- A node that has been begun has more decisions than those behind it. -/
theorem Checked.begin {decisions : Nat} (h : Checked root node.decisions s)
    (hlt : decisions < node.decisions) : Checked root decisions s' := by
  intro part hother hmem
  rw [hdrawn] at hmem
  rcases List.mem_cons.mp hmem with hsame | hmem
  · exact .inr (hmark part hother node hpart hsame ▸ hlt)
  · exact (h part hother hmem).imp_right hlt.trans

theorem testsInputs_or_mem_of_begun (htests : node.TestsInputs) :
    ∀ part ∈ root.parts, part.mark ∈ s'.drawn → part.TestsInputs ∨ part.mark ∈ s.drawn := by
  intro part hother hmem
  rw [hdrawn] at hmem
  rcases List.mem_cons.mp hmem with hsame | hmem
  · exact .inl (hmark part hother node hpart hsame ▸ htests)
  · exact .inr hmem

end Begun

/-- **Drawing looks at all tests**, if a number names one part of the diagram. -/
theorem checks (hnames : names.texts = [])
    (hmark : ∀ part ∈ root.parts, ∀ other ∈ root.parts, part.mark = other.mark → part = other)
    (hpart : node ∈ root.parts) : Checks names root node := by
  induction node using Diagram.opening_induction with
  | give node cell hopening =>
    intro s s' hdraw hchecked
    have htests := Diagram.testsInputs_of_give hopening
    by_cases hmem : node.mark ∈ s.drawn
    · exact checks_of_mem hpart hmem hdraw hchecked
    rw [draw_of_give names hopening, once_eq hmem] at hdraw
    obtain ⟨label, s₁, hlabel, hdraw⟩ := exists_of_bind hdraw
    rw [add_eq] at hdraw
    obtain ⟨-, rfl⟩ := Prod.mk.inj (Except.ok.inj hdraw)
    exact ⟨htests, testsInputs_or_mem_of_begun hmark hpart (drawn_of_labelOf hlabel) htests⟩
  | ask node inputs high low hopening ihHigh ihLow =>
    intro s s' hdraw hchecked
    by_cases hmem : node.mark ∈ s.drawn
    · exact checks_of_mem hpart hmem hdraw hchecked
    rw [draw_of_ask names hopening, once_eq hmem] at hdraw
    obtain ⟨label, s₁, hlabel, hdraw⟩ := exists_of_bind hdraw
    obtain ⟨text, s₂, htext, hdraw⟩ := exists_of_bind hdraw
    obtain ⟨_, s₃, hadd, hdraw⟩ := exists_of_bind hdraw
    obtain ⟨_, s₄, hhigh, hlow⟩ := exists_of_bind hdraw
    obtain ⟨hjoined, rfl⟩ := eq_of_lift htext
    have hdrawn : s₃.drawn = node.mark :: s.drawn := by
      rw [add_eq] at hadd
      obtain ⟨-, rfl⟩ := Prod.mk.inj (Except.ok.inj hadd)
      exact drawn_of_labelOf hlabel
    have hparts := (Diagram.parts_opening_sublist hopening).subset
    have hsub : node.parts ⊆ root.parts := Diagram.parts_subset_of_mem hpart
    obtain ⟨hsmallerHigh, hsmallerLow⟩ := Diagram.decisions_lt_of_opening hopening
    -- The high side is drawn behind the node itself, the low side behind all of the high side.
    obtain ⟨hhighTests, hafterHigh⟩ := (ihHigh (hsub (hparts (List.mem_cons_of_mem _
      (List.mem_append_left _ high.self_mem_parts))))).drawSide hhigh
        (hchecked.begin hmark hpart hdrawn hsmallerHigh)
    have hnext : Checked root low.decisions s₄ := fun part hother hmem =>
      (hafterHigh part hother hmem).elim .inl
        (hchecked.begin hmark hpart hdrawn hsmallerLow part hother)
    obtain ⟨hlowTests, hafterLow⟩ := (ihLow (hsub (hparts (List.mem_cons_of_mem _
      (List.mem_append_right _ low.self_mem_parts))))).drawSide hlow hnext
    have htests := Diagram.testsInputs_of_ask hopening (Names.nonneg_of_joined hnames hjoined)
      hhighTests hlowTests
    refine ⟨htests, fun part hother hmem => ?_⟩
    rcases hafterLow part hother hmem with hpartTests | hmem
    · exact .inl hpartTests
    rcases hafterHigh part hother hmem with hpartTests | hmem
    · exact .inl hpartTests
    exact testsInputs_or_mem_of_begun hmark hpart hdrawn htests part hother hmem

end Drawing

/-- A stored diagram that has a flowchart without names tests inputs from `0` on only. -/
theorem Node.nonneg_of_flowchart {names : Names} (hnames : names.texts = []) {s : Store}
    {root : Node} (hstored : root.IsStored s) {chart : Flowchart}
    (h : root.flowchart names = .ok chart) : ∀ var ∈ root.tests, 0 ≤ var := by
  have hchecks : Drawing.Checks names root root := Drawing.checks hnames
    (fun part hpart other hother hmark => hstored.eq_of_mark hpart hother hmark) root.self_mem_parts
  cases hdrawing : (do
      let start ← Drawing.labelOf root
      Drawing.draw names root
      return start : Drawing Nat) ⟨[], [], []⟩ with
  | error fault =>
    simp only [flowchart, StateT.run, hdrawing] at h
    cases h
  | ok result =>
    obtain ⟨start, s₁, hlabel, hrest⟩ := Drawing.exists_of_bind (b := result.1) hdrawing
    obtain ⟨_, s₂, hdraw, -⟩ := Drawing.exists_of_bind hrest
    refine (hchecks s₁ s₂ hdraw fun part _ hmark => ?_).1
    rw [Drawing.drawn_of_labelOf hlabel] at hmark
    exact absurd hmark List.not_mem_nil

end Dichotomy
