import Dichotomy.Export.Flowchart
import Dichotomy.Proofs.Phrases
import Dichotomy.Proofs.QuotedTexts

/-!
# Texts of flowcharts

A flowchart is written line by line, and the texts in it may hold anything, line breaks and whole
lines included.  All the same, the text tells the parts: each of them is read off the front of
what is left, a number up to the first other character and a quoted text up to the quote that
ends it.  Parts that are written alike have the same labels and the same quoted texts.

## Main statements

- `ReadsOff.forall₂_of_flatMap_eq`: lists of parts are read part by part.
- `readsOff_number`, `readsOff_labelText`, `ReadsBack.readsOff`: numbers, labels and escaped texts
  are read off the front.
- `readsOff_line`: so are the lines of parts, which begin with their labels in every notation.
-/

namespace Dichotomy

/-! ## Reading off the front -/

/-- What is written is told by a text that begins with it, and so is what follows: two things that
    are written in front of some text, where what follows them may follow, are alike. -/
def ReadsOff {α : Type} (write : α → List Char) (alike : α → α → Prop)
    (follows : List Char → Prop) : Prop :=
  ∀ ⦃x y : α⦄ ⦃rest rest' : List Char⦄, follows rest → follows rest' →
    write x ++ rest = write y ++ rest' → alike x y ∧ rest = rest'

/-- Things that are written one after the other are read off one after the other, up to an end
    that looks like none of them. -/
theorem ReadsOff.forall₂_of_flatMap_eq {α : Type} {write : α → List Char} {alike : α → α → Prop}
    {follows : List Char → Prop} (h : ReadsOff write alike follows) {ending : List Char}
    (hending : follows ending) (hnext : ∀ x more, follows (write x ++ more))
    (hother : ∀ x more, write x ++ more ≠ ending) {xs ys : List α}
    (heq : xs.flatMap write ++ ending = ys.flatMap write ++ ending) : List.Forall₂ alike xs ys := by
  have hfollows : ∀ xs : List α, follows (xs.flatMap write ++ ending) := by
    intro xs
    cases xs with
    | nil => exact hending
    | cons x xs =>
      rw [List.flatMap_cons, List.append_assoc]
      exact hnext x _
  induction xs generalizing ys with
  | nil =>
    cases ys with
    | nil => exact .nil
    | cons y ys =>
      rw [List.flatMap_cons, List.append_assoc] at heq
      exact absurd heq.symm (hother y _)
  | cons x xs ih =>
    cases ys with
    | nil =>
      rw [List.flatMap_cons, List.append_assoc] at heq
      exact absurd heq (hother x _)
    | cons y ys =>
      rw [List.flatMap_cons, List.flatMap_cons, List.append_assoc, List.append_assoc] at heq
      obtain ⟨halike, hrest⟩ := h (hfollows xs) (hfollows ys) heq
      exact .cons halike (ih hrest)

/-! ### Numbers -/

/-- A run of characters of one kind is told by what begins with it. -/
theorem append_inj_of_run {p : Char → Bool} {run run' rest rest' : List Char}
    (hrun : ∀ c ∈ run, p c = true) (hrun' : ∀ c ∈ run', p c = true)
    (hrest : ∀ c ∈ rest.head?, p c = false) (hrest' : ∀ c ∈ rest'.head?, p c = false)
    (heq : run ++ rest = run' ++ rest') : run = run' ∧ rest = rest' := by
  have htake {run rest : List Char} (hrun : ∀ c ∈ run, p c = true)
      (hrest : ∀ c ∈ rest.head?, p c = false) : (run ++ rest).takeWhile p = run := by
    rw [List.takeWhile_append_of_pos hrun]
    cases rest with
    | nil => rw [List.takeWhile_nil, List.append_nil]
    | cons c rest => rw [List.takeWhile_cons_of_neg (by simp [hrest c rfl]), List.append_nil]
  have hsame : run = run' := by rw [← htake hrun hrest, heq, htake hrun' hrest']
  rw [hsame, List.append_cancel_left_eq] at heq
  exact ⟨hsame, heq⟩

/-- A number may end here: no digit follows. -/
def EndsNumber (rest : List Char) : Prop := ∀ c ∈ rest.head?, c.isDigit = false

theorem endsNumber_nil : EndsNumber [] := fun _ hc => nomatch hc

theorem endsNumber_cons {c : Char} (hc : c.isDigit = false) (rest : List Char) :
    EndsNumber (c :: rest) := by
  intro first hfirst
  obtain rfl : c = first := Option.some.inj hfirst
  exact hc

theorem readsOff_number : ReadsOff (fun n : Nat => (toString n).toList) Eq EndsNumber := by
  intro n n' rest rest' hrest hrest' heq
  have hdigits (n : Nat) : ∀ c ∈ (toString n).toList, c.isDigit = true := by
    intro c hc
    rw [show (toString n).toList = Nat.toDigits 10 n from Nat.toList_repr] at hc
    exact Nat.isDigit_of_mem_toDigits (by decide) (by decide) hc
  obtain ⟨hsame, hmore⟩ := append_inj_of_run (hdigits n) (hdigits n') hrest hrest' heq
  have hnumeral := numeral?_repr n
  rw [show n.repr = n'.repr from String.toList_injective hsame, numeral?_repr] at hnumeral
  exact ⟨(Option.some.inj hnumeral).symm, hmore⟩

theorem readsOff_labelText : ReadsOff (fun n => (labelText n).toList) Eq EndsNumber := by
  intro n n' rest rest' hrest hrest' heq
  simp only [labelText, String.toList_append, List.append_assoc] at heq
  exact readsOff_number hrest hrest' (List.append_cancel_left heq)

/-! ### Quoted texts -/

/-- Escaped characters are read back one by one, up to a quote that none of them begins with. -/
theorem ReadsBack.readsOff {write : Char → List Char}
    {read? : List Char → Option (Char × List Char)} (h : ReadsBack write read?) {quote : Char}
    (hquote : ∀ c, (write c).head? ≠ some quote) :
    ReadsOff (fun chars : List Char => chars.flatMap write) Eq
      fun rest => rest.head? = some quote := by
  have hne (c : Char) : write c ≠ [] := by
    have := h.ne_nil c []
    simpa using this
  -- What begins with an escaped character does not begin with the quote.
  have hhead (c : Char) (more : List Char) : (write c ++ more).head? ≠ some quote := by
    rw [List.head?_append_of_ne_nil _ (hne c)]
    exact hquote c
  intro chars chars' rest rest' hrest hrest' heq
  induction chars generalizing chars' with
  | nil =>
    cases chars' with
    | nil => exact ⟨rfl, heq⟩
    | cons c' chars' =>
      simp only [List.flatMap_nil, List.nil_append, List.flatMap_cons, List.append_assoc] at heq
      exact absurd (heq ▸ hrest) (hhead c' _)
  | cons c chars ih =>
    cases chars' with
    | nil =>
      simp only [List.flatMap_nil, List.nil_append, List.flatMap_cons, List.append_assoc] at heq
      exact absurd (heq ▸ hrest') (hhead c _)
    | cons c' chars' =>
      simp only [List.flatMap_cons, List.append_assoc] at heq
      have hread := h.append c (chars.flatMap write ++ rest)
      rw [heq, h.append, Option.some.injEq, Prod.mk.injEq] at hread
      obtain ⟨rfl, hmore⟩ := hread
      obtain ⟨rfl, hsame⟩ := ih hmore.symm
      exact ⟨rfl, hsame⟩

/-! ## Parts that are written alike -/

/-- Two parts have the same labels, and their cells and their conditions are written alike. -/
inductive Element.Alike (same : Cell → Cell → Prop) (asks : String → String → Prop) :
    Element → Element → Prop where
  /-- Boxes. -/
  | result (label : Nat) {cell cell' : Cell} (h : same cell cell') :
      Alike same asks (.result label cell) (.result label cell')
  /-- Diamonds. -/
  | decision (label : Nat) (inputs inputs' : List Int) {text text' : String} (h : asks text text') :
      Alike same asks (.decision label inputs text) (.decision label inputs' text')
  /-- Edges. -/
  | edge (source target : Nat) (taken : Bool) :
      Alike same asks (.edge source target taken) (.edge source target taken)

/-- The label at which a part stands. -/
def Element.label : Element → Nat
  | result label _ => label
  | decision label _ _ => label
  | edge source _ _ => source

/-- Parts are read off line by line if no digit follows their labels and what follows equal labels
    tells the rest of the part. -/
theorem readsOff_line {line after : Element → String} {alike : Element → Element → Prop}
    {follows : List Char → Prop} (hline : ∀ e, line e = "    " ++ labelText e.label ++ after e)
    (hends : ∀ e rest, EndsNumber ((after e).toList ++ rest))
    (hafter : ∀ {e e' : Element} {rest rest' : List Char}, e.label = e'.label → follows rest →
      follows rest' → (after e).toList ++ rest = (after e').toList ++ rest' →
        alike e e' ∧ rest = rest') :
    ReadsOff (fun e => '\n' :: (line e).toList) alike follows := by
  intro e e' rest rest' hrest hrest' heq
  have hsplit (e : Element) (rest : List Char) : '\n' :: (line e).toList ++ rest =
      ('\n' :: "    ".toList) ++ ((labelText e.label).toList ++ ((after e).toList ++ rest)) := by
    rw [hline]
    simp only [String.toList_append, List.cons_append, List.append_assoc]
  simp only [hsplit] at heq
  obtain ⟨hlabel, hmore⟩ :=
    readsOff_labelText (hends e rest) (hends e' rest') (List.append_cancel_left heq)
  exact hafter hlabel hrest hrest' hmore

/-- Lines are written one below the other. -/
theorem toList_intercalate_lines (first : String) (lines : List String) :
    ("\n".intercalate (first :: lines)).toList =
      first.toList ++ lines.flatMap fun line => '\n' :: line.toList := by
  induction lines generalizing first with
  | nil => simp
  | cons second lines ih =>
    rw [String.intercalate_cons_cons, String.toList_append, String.toList_append, ih,
      List.flatMap_cons, List.append_assoc]
    rfl

end Dichotomy
