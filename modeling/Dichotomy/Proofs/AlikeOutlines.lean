import Dichotomy.Proofs.ReorderedTests
import Dichotomy.Proofs.TakenPaths

/-!
# Alike outlines

Two outlines are alike if they ask for the same inputs in the same places and if what they give is
the same in some respect, for instance in the way it is written.  Diagrams with alike outlines go
the same ways, so they give cells that are the same in that respect.

Where the respect tells the cells of both diagrams apart, the diagrams differ in nothing but the
order of tests over one fallback.  That is so, too, if some assignments exercise one of the
diagrams and both diagrams agree on them: then each cell is the answer to one of them.

## Main statements

- `Diagram.exists_evals_of_alike`: diagrams with alike outlines give alike cells.
- `Diagram.reorders_of_alike`: where cells are told apart, only the order of tests may differ.
- `Diagram.IsExercised.alike_eq`: where diagrams agree, cells need not be told apart.
-/

namespace Dichotomy

namespace Outline

variable {ι κ : Type}

/-- The same inputs are asked for in the same places, and the cells are the same in some respect. -/
inductive Alike (same : Cell → Cell → Prop) : Outline ι → Outline κ → Prop where
  /-- Both give a cell. -/
  | give (mark : ι) (mark' : κ) {cell cell' : Cell} (h : same cell cell') :
      Alike same (.give mark cell) (.give mark' cell')
  /-- Both ask for the same inputs. -/
  | test (mark : ι) (mark' : κ) (inputs : List Int) {high low : Outline ι} {high' low' : Outline κ}
      (hhigh : Alike same high high') (hlow : Alike same low low') :
      Alike same (.test mark inputs high low) (.test mark' inputs high' low')

variable {same same' : Cell → Cell → Prop} {o : Outline ι} {o' : Outline κ}

namespace Alike

theorem inputs_eq (h : o.Alike same o') : o.inputs = o'.inputs := by
  induction h with
  | give => rfl
  | test mark mark' inputs _ _ ihHigh ihLow =>
    rw [Outline.inputs, Outline.inputs, ihHigh, ihLow]

/-- It is enough to look at the cells that are given. -/
theorem imp_of_mem (h : o.Alike same o')
    (himp : ∀ cell ∈ o.cells, ∀ cell' ∈ o'.cells, same cell cell' → same' cell cell') :
    o.Alike same' o' := by
  induction h with
  | give mark mark' h =>
    exact .give mark mark' (himp _ (List.mem_singleton.mpr rfl) _ (List.mem_singleton.mpr rfl) h)
  | test mark mark' inputs _ _ ihHigh ihLow =>
    refine .test mark mark' inputs (ihHigh fun cell hcell cell' hcell' => ?_)
      (ihLow fun cell hcell cell' hcell' => ?_)
    · exact himp cell (List.mem_append_left _ hcell) cell' (List.mem_append_left _ hcell')
    · exact himp cell (List.mem_append_right _ hcell) cell' (List.mem_append_right _ hcell')

/-- Outlines that are the same but for their marks unfold to one tree. -/
theorem unfold_eq (h : o.Alike Eq o') : o.unfold = o'.unfold := by
  induction h with
  | give mark mark' h => rw [unfold, unfold, h]
  | test mark mark' inputs _ _ ihHigh ihLow => rw [unfold, unfold, ihHigh, ihLow]

end Alike

end Outline

namespace Diagram

variable {ι κ : Type} {same : Cell → Cell → Prop} {d : Diagram ι} {d' : Diagram κ}

/-- What is alike to an outline begins like it. -/
theorem opening_of_alike_give {cell : Cell} (h : d.outline.Alike same d'.outline)
    (hopening : d.opening = .give cell) :
    ∃ cell', d'.opening = .give cell' ∧ same cell cell' := by
  rw [outline_eq, hopening, outline_eq d'] at h
  cases hopening' : d'.opening with
  | give cell' =>
    rw [hopening'] at h
    cases h with
    | give _ _ hsame => exact ⟨cell', rfl, hsame⟩
  | ask inputs high low =>
    rw [hopening'] at h
    cases h

theorem opening_of_alike_ask {inputs : List Int} {high low : Diagram ι}
    (h : d.outline.Alike same d'.outline) (hopening : d.opening = .ask inputs high low) :
    ∃ high' low', d'.opening = .ask inputs high' low' ∧ high.outline.Alike same high'.outline ∧
      low.outline.Alike same low'.outline := by
  rw [outline_eq, hopening, outline_eq d'] at h
  cases hopening' : d'.opening with
  | give cell' =>
    rw [hopening'] at h
    cases h
  | ask inputs' high' low' =>
    rw [hopening'] at h
    cases h with
    | test _ _ _ hhigh hlow => exact ⟨high', low', rfl, hhigh, hlow⟩

/-- Diagrams with alike outlines test the same inputs. -/
theorem covers_of_alike (h : d.outline.Alike same d'.outline) {a : Assignment}
    (hcovers : a.Covers d) : a.Covers d' := by
  intro var hvar
  have hinputs := d'.perm_inputs_outline.mem_iff.mpr hvar
  rw [← h.inputs_eq] at hinputs
  exact hcovers var (d.inputs_outline_subset hinputs)

/-- **Alike answers**: diagrams with alike outlines give alike cells. -/
theorem exists_evals_of_alike (h : d.outline.Alike same d'.outline) {a : Assignment}
    (hcovers : a.Covers d) :
    ∃ cell cell', d.eval a = .ok cell ∧ d'.eval a = .ok cell' ∧ same cell cell' := by
  have hcovers' := covers_of_alike h hcovers
  induction d using opening_induction generalizing d' with
  | give d cell hopening =>
    obtain ⟨cell', hopening', hsame⟩ := opening_of_alike_give h hopening
    exact ⟨cell, cell', eval_of_give hopening hcovers, eval_of_give hopening' hcovers', hsame⟩
  | ask d inputs high low hopening ihHigh ihLow =>
    obtain ⟨high', low', hopening', hhigh, hlow⟩ := opening_of_alike_ask h hopening
    obtain ⟨-, hhighCovers, hlowCovers⟩ := covers_opening hopening hcovers
    obtain ⟨-, hhighCovers', hlowCovers'⟩ := covers_opening hopening' hcovers'
    rw [eval_of_ask hopening hcovers, eval_of_ask hopening' hcovers']
    cases inputs.all a.value with
    | true => exact ihHigh hhigh hhighCovers hhighCovers'
    | false => exact ihLow hlow hlowCovers hlowCovers'

/-- Diagrams whose outlines are the same but for their marks differ in nothing but the order of
    tests over one fallback. -/
theorem reorders_of_alike (h : d.outline.Alike Eq d'.outline) : d.shape.Reorders d'.shape := by
  have hfirst := d.reorders_unfold_outline
  rw [h.unfold_eq] at hfirst
  exact hfirst.trans d'.reorders_unfold_outline.symm

/-- **Agreement**: if some assignments exercise a diagram, and a diagram with an alike outline
    answers them in the same way, then the cells in the same places are equal. -/
theorem IsExercised.alike_eq {rows : Assignment → Prop} (hrows : d.IsExercised rows)
    (htests : ∀ var ∈ d.tests, 0 ≤ var) (h : d.outline.Alike same d'.outline)
    (hagree : ∀ a, rows a → a.Covers d ∧ d'.eval a = d.eval a) : d.outline.Alike Eq d'.outline := by
  induction d using opening_induction generalizing d' rows with
  | give d cell hopening =>
    obtain ⟨cell', hopening', -⟩ := opening_of_alike_give h hopening
    obtain ⟨a, ha⟩ := hrows.exists
    obtain ⟨hcovers, hsame⟩ := hagree a ha
    rw [eval_of_give hopening hcovers, eval_of_give hopening' (covers_of_alike h hcovers)] at hsame
    rw [outline_eq, hopening, outline_eq d', hopening']
    exact .give _ _ (Except.ok.inj hsame).symm
  | ask d inputs high low hopening ihHigh ihLow =>
    obtain ⟨high', low', hopening', hhigh, hlow⟩ := opening_of_alike_ask h hopening
    have hsubset := tests_opening_subset hopening
    -- Those that go on with a side exercise it, and the diagrams agree on them there.
    have hside (taken : Bool) (a : Assignment) (ha : rows a ∧ inputs.all a.value = taken) :
        a.Covers (if taken then high else low) ∧
          (if taken then high' else low').eval a = (if taken then high else low).eval a := by
      obtain ⟨hcovers, hsame⟩ := hagree a ha.1
      obtain ⟨-, hhighCovers, hlowCovers⟩ := covers_opening hopening hcovers
      rw [eval_of_ask hopening hcovers, eval_of_ask hopening' (covers_of_alike h hcovers), ha.2]
        at hsame
      cases taken with
      | true => exact ⟨hhighCovers, hsame⟩
      | false => exact ⟨hlowCovers, hsame⟩
    rw [outline_eq, hopening, outline_eq d', hopening']
    refine .test _ _ inputs ?_ ?_
    · exact ihHigh (hrows.side hopening htests true)
        (fun var hvar => htests var
          (hsubset (List.mem_append_right _ (List.mem_append_left _ hvar)))) hhigh (hside true)
    · exact ihLow (hrows.side hopening htests false)
        (fun var hvar => htests var
          (hsubset (List.mem_append_right _ (List.mem_append_right _ hvar)))) hlow (hside false)

end Diagram

end Dichotomy
