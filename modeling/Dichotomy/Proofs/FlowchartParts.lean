import Dichotomy.Export.Flowchart
import Dichotomy.Proofs.Rearrangement
import Dichotomy.Proofs.Score

/-!
# Parts of a flowchart

What a diagram goes on with after its opening are parts of it, none of them met twice, and it
tests nothing else.  A flowchart is drawn by steps that label a node, pass over what has been
drawn, or add a part.  Each of them is described by what it does to the sketch.

## Main statements

- `Diagram.parts_opening_sublist`: what a diagram goes on with is below its root.
- `Diagram.marks_opening_sublist`: it carries different numbers, too.
- `Diagram.tests_opening_subset`: the inputs it asks for are tested.
- `Drawing.draw_of_give`, `Drawing.draw_of_ask`: drawing a node by its opening.
-/

namespace Dichotomy

/-! ## Parts of a diagram -/

namespace Diagram

variable {ι : Type}

/-- All parts of a diagram, itself first. -/
def parts : Diagram ι → List (Diagram ι)
  | leaf mark cell => [leaf mark cell]
  | branch mark var high low => branch mark var high low :: (high.parts ++ low.parts)

theorem self_mem_parts (d : Diagram ι) : d ∈ d.parts := by
  cases d <;> exact List.mem_cons_self

/-- What is part of a part is part of the whole. -/
theorem parts_subset_of_mem {d part : Diagram ι} (h : part ∈ d.parts) : part.parts ⊆ d.parts := by
  induction d with
  | leaf mark cell =>
    obtain rfl := List.mem_singleton.mp h
    exact List.Subset.refl _
  | branch mark var high low ihHigh ihLow =>
    rcases List.mem_cons.mp h with rfl | h
    · exact List.Subset.refl _
    · refine List.subset_cons_of_subset _ ?_
      rcases List.mem_append.mp h with h | h
      · exact List.subset_append_of_subset_left _ (ihHigh h)
      · exact List.subset_append_of_subset_right _ (ihLow h)

theorem parts_runOver_sublist (fallback : Cell) (d : Diagram ι) :
    (d.runOver fallback).2.parts.Sublist d.parts := by
  induction d with
  | leaf mark cell => exact List.Sublist.refl _
  | branch mark var high low ihHigh _ =>
    cases low with
    | branch => exact List.Sublist.refl _
    | leaf lowMark cell =>
      rw [runOver]
      split
      · exact (ihHigh.trans (List.sublist_append_left _ _)).trans (List.sublist_cons_self _ _)
      · exact List.Sublist.refl _

/-- What a diagram goes on with are parts below the root, none of them met twice. -/
theorem parts_opening_sublist {d : Diagram ι} {inputs : List Int} {high low : Diagram ι}
    (h : d.opening = .ask inputs high low) :
    (d :: (high.parts ++ low.parts)).Sublist d.parts := by
  obtain ⟨mark, var, side, lowMark, cell, rfl, -, rfl, rfl⟩ |
    ⟨mark, var, lowMark, lowVar, lowHigh, lowLow, rfl, -, -⟩ := opening_cases h
  · exact ((parts_runOver_sublist cell side).append (List.Sublist.refl _)).cons_cons _
  · exact List.Sublist.refl _

/-! ## Marks of an opening -/

/-- The marks of all positions, the root first. -/
def marks : Diagram ι → List ι
  | leaf mark _ => [mark]
  | branch mark _ high low => mark :: (high.marks ++ low.marks)

theorem marks_eq_map_parts (d : Diagram ι) : d.marks = d.parts.map mark := by
  induction d with
  | leaf mark cell => rfl
  | branch mark var high low ihHigh ihLow =>
    rw [marks, ihHigh, ihLow, parts, List.map_cons, List.map_append]
    rfl

theorem mark_mem_marks (d : Diagram ι) : d.mark ∈ d.marks := by
  cases d <;> exact List.mem_cons_self

/-- What a diagram goes on with uses marks below the root, none of them twice. -/
theorem marks_opening_sublist {d : Diagram ι} {inputs : List Int} {high low : Diagram ι}
    (h : d.opening = .ask inputs high low) :
    (d.mark :: (high.marks ++ low.marks)).Sublist d.marks := by
  rw [marks_eq_map_parts d, marks_eq_map_parts high, marks_eq_map_parts low, ← List.map_append,
    ← List.map_cons]
  exact (parts_opening_sublist h).map mark

theorem tests_runOver_subset (fallback : Cell) (d : Diagram ι) :
    (d.runOver fallback).1 ++ (d.runOver fallback).2.tests ⊆ d.tests := by
  induction d with
  | leaf mark cell => exact fun _ h => h
  | branch mark var high low ihHigh _ =>
    cases low with
    | branch => exact fun _ h => h
    | leaf lowMark cell =>
      rw [runOver]
      split
      · intro input hinput
        rcases List.mem_cons.mp hinput with rfl | hinput
        · exact List.mem_cons_self
        · exact List.mem_cons_of_mem _ (List.mem_append_left _ (ihHigh hinput))
      · exact fun _ h => h

/-- What a diagram asks, first and later, it tests. -/
theorem tests_opening_subset {d : Diagram ι} {inputs : List Int} {high low : Diagram ι}
    (h : d.opening = .ask inputs high low) : inputs ++ (high.tests ++ low.tests) ⊆ d.tests := by
  obtain ⟨mark, var, side, lowMark, cell, rfl, rfl, rfl, rfl⟩ |
    ⟨mark, var, lowMark, lowVar, lowHigh, lowLow, rfl, rfl, -⟩ := opening_cases h
  · intro input hinput
    have hrun := @tests_runOver_subset ι cell side input
    simp only [tests, List.append_nil, List.mem_append, List.mem_cons,
      (perm_ascending _).mem_iff] at hinput hrun ⊢
    rcases hinput with (h | h) | h
    · exact .inl h
    · exact .inr (hrun (.inl h))
    · exact .inr (hrun (.inr h))
  · exact fun _ h => h

end Diagram

/-- Every input from `0` on has a name, whether one was given or not. -/
theorem exists_nameOf (names : Names) {var : Int} (h : 0 ≤ var) :
    ∃ name, names.nameOf var = .ok name := by
  rw [Names.nameOf]
  split
  next hlt =>
    -- A given name is looked up from the front, since the number is not negative.
    have hget : var.toNat < names.texts.length := by omega
    have hvar : ((var.toNat : Nat) : Int) = var := Int.toNat_of_nonneg h
    rw [← hvar, atPosition_natCast _ hget]
    exact ⟨_, rfl⟩
  next => exact ⟨_, rfl⟩

theorem exists_joined (names : Names) (between : String) {vars : List Int}
    (h : ∀ var ∈ vars, 0 ≤ var) : ∃ text, names.joined between vars = .ok text := by
  have hnames : ∀ var ∈ vars, names.nameOf var = .ok ((names.nameOf var).toOption.getD "") := by
    intro var hvar
    obtain ⟨name, hname⟩ := exists_nameOf names (h var hvar)
    rw [hname]
    rfl
  rw [Names.joined, mapM_eq_ok hnames]
  exact ⟨_, rfl⟩

/-! ## Drawing -/

namespace Element

/-- Whether a part is a box. -/
def isResult : Element → Bool
  | result _ _ => true
  | _ => false

/-- Whether a part is a diamond. -/
def isDecision : Element → Bool
  | decision _ _ _ => true
  | _ => false

end Element

namespace Drawing

/-- A step that succeeds hands its sketch on to the next one. -/
theorem bind_eq {α β : Type} {x : Drawing α} {f : α → Drawing β} {s s' : Sketch} {a : α}
    (h : x s = .ok (a, s')) : (x >>= f) s = f a s' := by
  simp [bind, StateT.bind, h, Except.bind]

theorem add_eq (element : Element) (s : Sketch) :
    add element s = .ok ((), { s with elements := element :: s.elements }) := rfl

/-- A node that gives a cell is drawn as one box. -/
theorem draw_of_give (names : Names) {node : Node} {cell : Cell} (h : node.opening = .give cell) :
    draw names node = once node (do add (.result (← labelOf node) cell)) := by
  rw [draw]
  congr 2
  funext label
  split
  next cell' h' =>
    rw [h] at h'
    obtain rfl : cell = cell' := Opening.give.inj h'
    rfl
  next h' =>
    rw [h] at h'
    cases h'

/-- Draws one side of a node, and then the edge to it. -/
def drawSide (names : Names) (source : Nat) (taken : Bool) (side : Node) : Drawing Unit := do
  let label ← labelOf side
  draw names side
  add (.edge source label taken)

/-- A node that asks is drawn as one diamond, followed by both sides. -/
theorem draw_of_ask (names : Names) {node high low : Node} {inputs : List Int}
    (h : node.opening = .ask inputs high low) :
    draw names node = once node (do
      let label ← labelOf node
      add (.decision label inputs (← StateT.lift (names.joined " && " inputs)))
      drawSide names label true high
      drawSide names label false low) := by
  rw [draw]
  congr 2
  funext label
  split
  next h' =>
    rw [h] at h'
    cases h'
  next inputs' high' low' h' =>
    rw [h] at h'
    obtain ⟨rfl, rfl, rfl⟩ := Opening.ask.inj h'
    -- Both sides are steps of one sequence, in whatever way it is bracketed.
    simp only [drawSide, bind_assoc]

/-- A node that has not been drawn is drawn, and counts as drawn from then on. -/
theorem once_eq {node : Node} {s : Sketch} (h : node.mark ∉ s.drawn) (drawing : Drawing Unit) :
    once node drawing s = drawing { s with drawn := node.mark :: s.drawn } := by
  have hvisit : visit node s = .ok (false, { s with drawn := node.mark :: s.drawn }) := by
    have hnot : s.drawn.contains node.mark = false := by
      rw [Bool.eq_false_iff]
      intro hmem
      exact h (List.contains_iff_mem.mp hmem)
    rw [visit, hnot]
    rfl
  rw [once, bind_eq hvisit]
  rfl

/-- A node with a label keeps it. -/
theorem labelOf_of_mem {node : Node} {s : Sketch} (hmark : 0 ≤ node.mark)
    (h : node.mark ∈ s.labelled) : labelOf node s = .ok (s.labelled.idxOf node.mark, s) := by
  have hlabel : s.labelled.idxOf? node.mark = some (s.labelled.idxOf node.mark) := by
    cases hfind : s.labelled.idxOf? node.mark with
    | none => exact absurd h (List.idxOf?_eq_none_iff.mp hfind)
    | some label => rw [List.idxOf_eq_getD_idxOf?, hfind, Option.getD_some]
  rw [labelOf, if_neg (by omega), hlabel]

/-- A node without a label gets the next one. -/
theorem labelOf_of_notMem {node : Node} {s : Sketch} (hmark : 0 ≤ node.mark)
    (h : node.mark ∉ s.labelled) :
    labelOf node s =
      .ok (s.labelled.length, { s with labelled := s.labelled ++ [node.mark] }) := by
  rw [labelOf, if_neg (by omega), List.idxOf?_eq_none_iff.mpr h]

end Drawing

end Dichotomy
