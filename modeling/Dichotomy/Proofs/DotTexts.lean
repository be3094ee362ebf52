import Dichotomy.Export.Dot
import Dichotomy.Proofs.ChartTexts

/-!
# DOT tells the parts

The text of a DOT graph tells the parts of its flowchart as far as they are written differently.
Quoted texts tell what they quote, since the backslash that stands before a quote is itself
written with a backslash.  But the text in the box of a free cell is quoted as well.

## Main statements

- `Dot.alike_of_body_eq`: the text tells the parts as they are written.
- `Dot.elementLine_free_eq_iff`: the box of a free cell reads like that of the literal `null`.
-/

namespace Dichotomy

namespace Dot

/-- Two parts are written alike. -/
abbrev AreAlike : Element → Element → Prop :=
  Element.Alike (fun cell cell' => cellText cell = cellText cell') Eq

/-- What stands behind the label of a part. -/
def afterLabel : Element → String
  | .result _ cell =>
    " [shape=" ++ "box, style=filled, fillcolor=lightpink, label=" ++
      quotedText (cellText cell) ++ "];"
  | .decision _ _ text =>
    " [shape=" ++ "diamond, style=filled, fillcolor=lightblue, label=" ++ quotedText text ++ "];"
  | .edge _ target true => " -> " ++ labelText target ++ " [label=\"True\"];"
  | .edge _ target false => " -> " ++ labelText target ++ " [label=\"False\", style=dotted];"

theorem elementLine_eq (e : Element) :
    elementLine e = "    " ++ labelText e.label ++ afterLabel e := by
  have hbox : " [shape=" ++ "box, style=filled, fillcolor=lightpink, label=" =
      " [shape=box, style=filled, fillcolor=lightpink, label=" := by decide
  have hdiamond : " [shape=" ++ "diamond, style=filled, fillcolor=lightblue, label=" =
      " [shape=diamond, style=filled, fillcolor=lightblue, label=" := by decide
  rcases e with ⟨n, cell⟩ | ⟨n, inputs, text⟩ | ⟨source, target, _ | _⟩
  case result => rw [elementLine, afterLabel, hbox]; simp only [Element.label, String.append_assoc]
  case decision =>
    rw [elementLine, afterLabel, hdiamond]
    simp only [Element.label, String.append_assoc]
  all_goals simp only [elementLine, afterLabel, Element.label, String.append_assoc]

/-! ### Quoted texts -/

/-- Backslashes are read as in single-quoted literals. -/
theorem readsBack_writeChar : ReadsBack writeChar JavaScript.readChar? where
  nil := rfl
  append c rest := by
    unfold writeChar
    split
    next => rfl
    next h =>
      simp only [Bool.or_eq_true, decide_eq_true_eq, not_or] at h
      cases rest <;> simp [JavaScript.readChar?, h.1]

/-- A quote does not stand in front of what is written for a character. -/
theorem head?_writeChar_ne (c : Char) : (writeChar c).head? ≠ some '"' := by
  unfold writeChar
  split
  next => simp
  next h =>
    simp only [Bool.or_eq_true, decide_eq_true_eq, not_or] at h
    simpa using h.2

theorem readsOff_quotedText :
    ReadsOff (fun text => (quotedText text).toList) Eq fun _ => True := by
  intro text text' rest rest' _ _ heq
  have hquote : "\"".toList = ['"'] := by decide
  simp only [quotedText, escaped, String.toList_append, String.toList_ofList, hquote,
    List.append_assoc, List.cons_append, List.nil_append, List.cons.injEq, true_and] at heq
  obtain ⟨hsame, hrest⟩ := readsBack_writeChar.readsOff head?_writeChar_ne rfl rfl heq
  exact ⟨String.toList_injective hsame, (List.cons.inj hrest).2⟩

theorem cellText_eq_iff {cell cell' : Cell} :
    cellText cell = cellText cell' ↔ cell = cell' ∨
      (cell = .dontCare ∧ cell' = .literal "null") ∨
      (cell = .literal "null" ∧ cell' = .dontCare) := by
  cases cell <;> cases cell' <;> simp [cellText, eq_comm]

/-! ### Lines -/

section Lines

variable (n : Nat) (inputs : List Int) (cell : Cell) (text : String) (rest : List Char)

theorem toList_result : (afterLabel (.result n cell)).toList ++ rest =
    " [shape=".toList ++ ("box, style=filled, fillcolor=lightpink, label=".toList ++
      ((quotedText (cellText cell)).toList ++ ("];".toList ++ rest))) := by
  simp only [afterLabel, String.toList_append, List.append_assoc]

theorem toList_decision : (afterLabel (.decision n inputs text)).toList ++ rest =
    " [shape=".toList ++ ("diamond, style=filled, fillcolor=lightblue, label=".toList ++
      ((quotedText text).toList ++ ("];".toList ++ rest))) := by
  simp only [afterLabel, String.toList_append, List.append_assoc]

theorem toList_edge (target : Nat) : ∀ taken, (afterLabel (.edge n target taken)).toList ++ rest =
    " -> ".toList ++ ((labelText target).toList ++ ((if taken then
      " [label=\"True\"];" else " [label=\"False\", style=dotted];").toList ++ rest))
  | true => by
    rw [if_pos rfl]
    simp only [afterLabel, String.toList_append, List.append_assoc]
  | false => by
    rw [if_neg Bool.false_ne_true]
    simp only [afterLabel, String.toList_append, List.append_assoc]

end Lines

theorem endsNumber_afterLabel (e : Element) (rest : List Char) :
    EndsNumber ((afterLabel e).toList ++ rest) := by
  have hshape : " [shape=".toList = ' ' :: "[shape=".toList := by decide
  have harrow : " -> ".toList = ' ' :: "-> ".toList := by decide
  cases e with
  | result n cell =>
    rw [toList_result, hshape]
    exact endsNumber_cons (by decide) _
  | decision n inputs text =>
    rw [toList_decision, hshape]
    exact endsNumber_cons (by decide) _
  | edge source target taken =>
    rw [toList_edge, harrow]
    exact endsNumber_cons (by decide) _

/-- What stands behind equal labels tells the rest of a part. -/
theorem alike_of_afterLabel {e e' : Element} (hlabel : e.label = e'.label) {rest rest' : List Char}
    (heq : (afterLabel e).toList ++ rest = (afterLabel e').toList ++ rest') :
    AreAlike e e' ∧ rest = rest' := by
  cases e with
  | result n cell =>
    cases e' with
    | result n' cell' =>
      obtain rfl : n = n' := hlabel
      rw [toList_result, toList_result] at heq
      obtain ⟨hsame, hmore⟩ := readsOff_quotedText trivial trivial
        (List.append_cancel_left (List.append_cancel_left heq))
      exact ⟨.result n hsame, List.append_cancel_left hmore⟩
    | decision =>
      rw [toList_result, toList_decision] at heq
      exact absurd (List.append_cancel_left heq) (by simp)
    | edge => simp [toList_result, toList_edge] at heq
  | decision n inputs text =>
    cases e' with
    | result =>
      rw [toList_result, toList_decision] at heq
      exact absurd (List.append_cancel_left heq) (by simp)
    | decision n' inputs' text' =>
      obtain rfl : n = n' := hlabel
      rw [toList_decision, toList_decision] at heq
      obtain ⟨hsame, hmore⟩ := readsOff_quotedText trivial trivial
        (List.append_cancel_left (List.append_cancel_left heq))
      exact ⟨.decision n inputs inputs' hsame, List.append_cancel_left hmore⟩
    | edge => simp [toList_decision, toList_edge] at heq
  | edge source target taken =>
    cases e' with
    | result => simp [toList_result, toList_edge] at heq
    | decision => simp [toList_decision, toList_edge] at heq
    | edge source' target' taken' =>
      obtain rfl : source = source' := hlabel
      rw [toList_edge, toList_edge] at heq
      have hends (taken : Bool) (rest : List Char) : EndsNumber ((if taken then
          " [label=\"True\"];" else " [label=\"False\", style=dotted];").toList ++ rest) := by
        cases taken <;> exact endsNumber_cons (by decide) _
      obtain ⟨rfl, hmore⟩ := readsOff_labelText (hends taken rest) (hends taken' rest')
        (List.append_cancel_left heq)
      -- How the condition comes out is written behind the arrow.
      obtain rfl : taken = taken' := by
        cases taken <;> cases taken' <;> first | rfl | simp at hmore
      exact ⟨.edge source target taken, List.append_cancel_left hmore⟩

theorem readsOff_elementLine :
    ReadsOff (fun e => '\n' :: (elementLine e).toList) AreAlike fun _ => True :=
  readsOff_line elementLine_eq endsNumber_afterLabel fun hlabel _ _ => alike_of_afterLabel hlabel

/-- **Free boxes**: the box of a free cell reads like the box of a literal exactly if the literal is
    `null` and the labels are the same. -/
theorem elementLine_free_eq_iff {n n' : Nat} {text : String} :
    elementLine (.result n .dontCare) = elementLine (.result n' (.literal text)) ↔
      n = n' ∧ text = "null" := by
  constructor
  · intro h
    have hlines := congrArg (fun line => '\n' :: line.toList ++ []) h
    obtain ⟨halike, -⟩ := readsOff_elementLine trivial trivial hlines
    cases halike with
    | result _ hsame => exact ⟨rfl, hsame.symm⟩
  · rintro ⟨rfl, rfl⟩
    rfl

/-- **DOT tells the parts**: flowcharts with one text begin at one label and have parts that are
    written alike. -/
theorem alike_of_body_eq {name : String} {chart chart' : Flowchart}
    (h : body name chart = body name chart') :
    chart.start = chart'.start ∧ List.Forall₂ AreAlike chart.elements chart'.elements := by
  let start := quotedText (if name = "" then "Start" else name)
  have htext (chart : Flowchart) : (body name chart).toList =
      (("digraph " ++ start ++ " \x7b").toList ++ '\n' :: ("    rankdir=TB;".toList ++ '\n' ::
        (("    Start [shape=oval, style=filled, fillcolor=lightgray, label=" ++ start ++
          "];").toList ++ '\n' :: "    Start -> ".toList))) ++
        ((labelText chart.start).toList ++ (";".toList ++
          ((chart.elements.flatMap fun e => '\n' :: (elementLine e).toList) ++
            '\n' :: "\x7d".toList))) := by
    simp only [body, List.cons_append, List.nil_append, toList_intercalate_lines,
      List.flatMap_cons, List.flatMap_append, List.flatMap_map, List.flatMap_nil,
      String.toList_append, List.append_assoc, List.append_nil, start]
  have hends (rest : List Char) : EndsNumber (";".toList ++ rest) := by
    have hsemicolon : ";".toList = [';'] := by decide
    rw [hsemicolon]
    exact endsNumber_cons (by decide) _
  have hbrace : '\n' :: "\x7d".toList = ['\n', '\x7d'] := by decide
  have heq := congrArg String.toList h
  rw [htext, htext] at heq
  obtain ⟨hstart, hrest⟩ := readsOff_labelText (hends _) (hends _) (List.append_cancel_left heq)
  refine ⟨hstart, readsOff_elementLine.forall₂_of_flatMap_eq trivial (fun _ _ => trivial) ?_
    (List.append_cancel_left hrest)⟩
  -- The closing brace is not indented.
  intro e more hline
  rw [elementLine_eq, hbrace] at hline
  simp [String.toList_append] at hline

end Dot

end Dichotomy
