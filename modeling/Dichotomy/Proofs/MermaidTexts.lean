import Dichotomy.Export.Mermaid
import Dichotomy.Proofs.ChartTexts

/-!
# Mermaid tells the parts

The text of a Mermaid graph tells the parts of its flowchart as far as they are written
differently.  Boxes of free cells are not quoted, so they are told from all others.  Inside the
quotes, the entity for the quote is written like the same characters in a text, so texts are told
apart only if they do not hold that entity.

## Main statements

- `Mermaid.alike_of_body_eq`: the text tells the parts as they are written.
- `Mermaid.boxText_inj`: cells with plain texts are told apart.
-/

namespace Dichotomy

namespace Mermaid

/-- What is written in the box of a cell. -/
def boxText : Cell → String
  | .literal text => quotedText text
  | .dontCare => "null"

/-- Two parts are written alike. -/
abbrev AreAlike : Element → Element → Prop :=
  Element.Alike (fun cell cell' => boxText cell = boxText cell')
    fun text text' => quotedText text = quotedText text'

/-- What stands behind the label of a part. -/
def afterLabel : Element → String
  | .result _ cell => "[" ++ boxText cell ++ "]"
  | .decision _ _ text => "\x7b" ++ quotedText text ++ "\x7d"
  | .edge _ target true => " -->|True| " ++ labelText target
  | .edge _ target false => " -.->|False| " ++ labelText target

theorem elementLine_eq (e : Element) :
    elementLine e = "    " ++ labelText e.label ++ afterLabel e := by
  have hnull : "[" ++ ("null" ++ "]") = "[null]" := by decide
  rcases e with ⟨n, text | _⟩ | ⟨n, inputs, text⟩ | ⟨source, target, _ | _⟩
  all_goals simp only [elementLine, afterLabel, boxText, Element.label, String.append_assoc, hnull]

/-! ### Quoted texts -/

/-- No quote is left inside a quoted text. -/
theorem ne_quote_of_mem_escaped {text : String} {c : Char}
    (hc : c ∈ (escaped writeChar text).toList) : (c != '"') = true := by
  rw [escaped, String.toList_ofList, List.mem_flatMap] at hc
  obtain ⟨written, -, hc⟩ := hc
  rw [writeChar] at hc
  split at hc
  next =>
    simp only [List.mem_cons, List.not_mem_nil, or_false] at hc
    rcases hc with rfl | rfl | rfl | rfl | rfl | rfl
    all_goals decide
  next hother => simpa [List.mem_singleton.mp hc] using hother

theorem toList_quotedText (text : String) (rest : List Char) :
    (quotedText text).toList ++ rest =
      '"' :: ((escaped writeChar text).toList ++ '"' :: rest) := by
  have hquote : "\"".toList = ['"'] := by decide
  simp only [quotedText, String.toList_append, hquote, List.append_assoc, List.cons_append,
    List.nil_append]

theorem readsOff_quotedText : ReadsOff (fun text => (quotedText text).toList)
    (fun text text' => quotedText text = quotedText text') fun _ => True := by
  intro text text' rest rest' _ _ heq
  simp only [toList_quotedText, List.cons.injEq, true_and] at heq
  -- The first quote behind the opening one is the one that closes the text.
  obtain ⟨hsame, hrest⟩ := append_inj_of_run (fun _ => ne_quote_of_mem_escaped)
    (fun _ => ne_quote_of_mem_escaped) (by simp) (by simp) heq
  refine ⟨?_, (List.cons.inj hrest).2⟩
  show quotedText text = quotedText text'
  rw [quotedText, quotedText, String.toList_injective hsame]

theorem readsOff_boxText : ReadsOff (fun cell => (boxText cell).toList)
    (fun cell cell' => boxText cell = boxText cell') fun _ => True := by
  intro cell cell' rest rest' _ _ heq
  have hnull : "null".toList = ['n', 'u', 'l', 'l'] := by decide
  -- The free cell is not quoted.
  cases cell with
  | literal text =>
    cases cell' with
    | literal text' => exact readsOff_quotedText trivial trivial heq
    | dontCare =>
      simp only [boxText, toList_quotedText, hnull, List.cons_append, List.cons.injEq] at heq
      exact absurd heq.1 (by decide)
  | dontCare =>
    cases cell' with
    | literal text' =>
      simp only [boxText, toList_quotedText, hnull, List.cons_append, List.cons.injEq] at heq
      exact absurd heq.1 (by decide)
    | dontCare => exact ⟨rfl, List.append_cancel_left heq⟩

/-! ### Lines -/

section Lines

variable (n : Nat) (inputs : List Int) (cell : Cell) (text : String) (rest : List Char)

theorem toList_result : (afterLabel (.result n cell)).toList ++ rest =
    '[' :: ((boxText cell).toList ++ ']' :: rest) := by
  have hopens : "[".toList = ['['] := by decide
  have hcloses : "]".toList = [']'] := by decide
  simp only [afterLabel, String.toList_append, hopens, hcloses, List.append_assoc,
    List.cons_append, List.nil_append]

theorem toList_decision : (afterLabel (.decision n inputs text)).toList ++ rest =
    '\x7b' :: ((quotedText text).toList ++ '\x7d' :: rest) := by
  have hopens : "\x7b".toList = ['\x7b'] := by decide
  have hcloses : "\x7d".toList = ['\x7d'] := by decide
  simp only [afterLabel, String.toList_append, hopens, hcloses, List.append_assoc,
    List.cons_append, List.nil_append]

theorem toList_edge (target : Nat) : ∀ taken, (afterLabel (.edge n target taken)).toList ++ rest =
    ' ' :: '-' :: (if taken then "->|True| " else ".->|False| ").toList ++
      ((labelText target).toList ++ rest)
  | true => by
    have harrow : " -->|True| ".toList = ' ' :: '-' :: "->|True| ".toList := by decide
    rw [if_pos rfl, ← harrow]
    simp only [afterLabel, String.toList_append, List.append_assoc]
  | false => by
    have harrow : " -.->|False| ".toList = ' ' :: '-' :: ".->|False| ".toList := by decide
    rw [if_neg Bool.false_ne_true, ← harrow]
    simp only [afterLabel, String.toList_append, List.append_assoc]

end Lines

theorem endsNumber_afterLabel (e : Element) (rest : List Char) :
    EndsNumber ((afterLabel e).toList ++ rest) := by
  cases e with
  | result n cell => exact toList_result n cell rest ▸ endsNumber_cons (by decide) _
  | decision n inputs text =>
    exact toList_decision n inputs text rest ▸ endsNumber_cons (by decide) _
  | edge source target taken =>
    exact toList_edge source rest target taken ▸ endsNumber_cons (by decide) _

/-- What stands behind equal labels tells the rest of a part. -/
theorem alike_of_afterLabel {e e' : Element} (hlabel : e.label = e'.label) {rest rest' : List Char}
    (hrest : EndsNumber rest) (hrest' : EndsNumber rest')
    (heq : (afterLabel e).toList ++ rest = (afterLabel e').toList ++ rest') :
    AreAlike e e' ∧ rest = rest' := by
  cases e with
  | result n cell =>
    cases e' with
    | result n' cell' =>
      obtain rfl : n = n' := hlabel
      rw [toList_result, toList_result] at heq
      obtain ⟨hsame, hmore⟩ := readsOff_boxText trivial trivial (List.cons.inj heq).2
      exact ⟨.result n hsame, (List.cons.inj hmore).2⟩
    | decision => simp [toList_result, toList_decision] at heq
    | edge => simp [toList_result, toList_edge] at heq
  | decision n inputs text =>
    cases e' with
    | result => simp [toList_result, toList_decision] at heq
    | decision n' inputs' text' =>
      obtain rfl : n = n' := hlabel
      rw [toList_decision, toList_decision] at heq
      obtain ⟨hsame, hmore⟩ := readsOff_quotedText trivial trivial (List.cons.inj heq).2
      exact ⟨.decision n inputs inputs' hsame, (List.cons.inj hmore).2⟩
    | edge => simp [toList_decision, toList_edge] at heq
  | edge source target taken =>
    cases e' with
    | result => simp [toList_result, toList_edge] at heq
    | decision => simp [toList_decision, toList_edge] at heq
    | edge source' target' taken' =>
      obtain rfl : source = source' := hlabel
      rw [toList_edge, toList_edge] at heq
      -- The arrows tell how the condition comes out.
      obtain rfl : taken = taken' := by
        cases taken <;> cases taken' <;> first | rfl | simp at heq
      obtain ⟨rfl, hmore⟩ := readsOff_labelText hrest hrest' (List.append_cancel_left heq)
      exact ⟨.edge source target taken, hmore⟩

theorem readsOff_elementLine :
    ReadsOff (fun e => '\n' :: (elementLine e).toList) AreAlike EndsNumber :=
  readsOff_line elementLine_eq endsNumber_afterLabel fun hlabel => alike_of_afterLabel hlabel

/-- **Mermaid tells the parts**: flowcharts with one text begin at one label and have parts that
    are written alike. -/
theorem alike_of_body_eq {name : String} {chart chart' : Flowchart}
    (h : body name chart = body name chart') :
    chart.start = chart'.start ∧ List.Forall₂ AreAlike chart.elements chart'.elements := by
  have htext (chart : Flowchart) : (body name chart).toList =
      ("graph TD".toList ++ '\n' :: ("    Start([" ++
        quotedText (if name = "" then "Start" else name) ++ "]) --> ").toList) ++
          ((labelText chart.start).toList ++
            chart.elements.flatMap fun e => '\n' :: (elementLine e).toList) := by
    simp only [body, toList_intercalate_lines, List.flatMap_cons, List.flatMap_map,
      String.toList_append, List.append_assoc, List.cons_append]
  have hlines (chart : Flowchart) :
      EndsNumber (chart.elements.flatMap fun e => '\n' :: (elementLine e).toList) := by
    cases chart.elements with
    | nil => exact endsNumber_nil
    | cons e elements => exact endsNumber_cons (by decide) _
  have heq := congrArg String.toList h
  rw [htext, htext] at heq
  obtain ⟨hstart, hparts⟩ :=
    readsOff_labelText (hlines chart) (hlines chart') (List.append_cancel_left heq)
  refine ⟨hstart, readsOff_elementLine.forall₂_of_flatMap_eq endsNumber_nil ?_ ?_
    (congrArg (· ++ []) hparts)⟩
  · exact fun e more => endsNumber_cons (by decide) _
  · exact fun e more => List.cons_ne_nil _ _

/-! ### Texts without the entity -/

/-- A text is plain if it does not hold the entity for the quote. -/
def IsPlain (text : String) : Prop := ¬ "#quot;".toList <:+: text.toList

instance (text : String) : Decidable (IsPlain text) := inferInstanceAs (Decidable (¬ _))

/-- What does not begin an entity stands in the text as it is written. -/
theorem isPrefix_of_flatMap {part chars : List Char} (hpart : '#' ∉ part)
    (h : part <+: chars.flatMap writeChar) : part <+: chars := by
  induction part generalizing chars with
  | nil => exact List.nil_prefix
  | cons c part ih =>
    rw [List.mem_cons, not_or] at hpart
    cases chars with
    | nil => exact absurd (List.prefix_nil.mp h) (List.cons_ne_nil _ _)
    | cons first chars =>
      rw [List.flatMap_cons, writeChar] at h
      split at h
      next =>
        obtain ⟨rfl, -⟩ := List.cons_prefix_cons.mp h
        exact absurd rfl hpart.1
      next =>
        obtain ⟨rfl, hrest⟩ := List.cons_prefix_cons.mp h
        exact List.cons_prefix_cons.mpr ⟨rfl, ih hpart.2 hrest⟩

/-- An entity is told from a quote only by the text. -/
theorem entity_isInfix {rest chars : List Char}
    (h : ['#', 'q', 'u', 'o', 't', ';'] ++ rest = chars.flatMap writeChar)
    (hquote : chars.head? ≠ some '"') : ['#', 'q', 'u', 'o', 't', ';'] <:+: chars := by
  cases chars with
  | nil => cases h
  | cons first chars =>
    rw [List.head?_cons, Ne, Option.some.injEq] at hquote
    rw [List.flatMap_cons, writeChar, if_neg hquote] at h
    obtain ⟨rfl, hmore⟩ := List.cons.inj h
    have hprefix : ['q', 'u', 'o', 't', ';'] <+: chars :=
      isPrefix_of_flatMap (by decide) ⟨rest, hmore⟩
    exact (List.cons_prefix_cons.mpr ⟨rfl, hprefix⟩).isInfix

theorem flatMap_writeChar_inj {chars chars' : List Char}
    (hplain : ¬ ['#', 'q', 'u', 'o', 't', ';'] <:+: chars)
    (hplain' : ¬ ['#', 'q', 'u', 'o', 't', ';'] <:+: chars')
    (h : chars.flatMap writeChar = chars'.flatMap writeChar) : chars = chars' := by
  have hne (c : Char) (rest : List Char) : (c :: rest).flatMap writeChar ≠ [] := by
    rw [List.flatMap_cons, writeChar]
    split <;> exact List.cons_ne_nil _ _
  induction chars generalizing chars' with
  | nil =>
    cases chars' with
    | nil => rfl
    | cons c' chars' => exact absurd h.symm (hne c' chars')
  | cons c chars ih =>
    cases chars' with
    | nil => exact absurd h (hne c chars)
    | cons c' chars' =>
      have hrest : ¬ ['#', 'q', 'u', 'o', 't', ';'] <:+: chars := fun hpart =>
        hplain (hpart.trans (List.suffix_cons _ _).isInfix)
      have hrest' : ¬ ['#', 'q', 'u', 'o', 't', ';'] <:+: chars' := fun hpart =>
        hplain' (hpart.trans (List.suffix_cons _ _).isInfix)
      by_cases hc : c = '"' <;> by_cases hc' : c' = '"'
      case pos =>
        subst hc hc'
        rw [ih hrest hrest' (List.append_cancel_left h)]
      case neg =>
        -- One of the texts holds the entity that is written for the quote in the other.
        rw [List.flatMap_cons, writeChar, if_pos hc] at h
        exact absurd (entity_isInfix h (by simpa using hc')) hplain'
      case pos =>
        have hsymm := h.symm
        rw [List.flatMap_cons, writeChar, if_pos hc'] at hsymm
        exact absurd (entity_isInfix hsymm (by simpa using hc)) hplain
      case neg =>
        rw [List.flatMap_cons, List.flatMap_cons, writeChar, writeChar, if_neg hc, if_neg hc'] at h
        obtain ⟨rfl, hmore⟩ := List.cons.inj h
        rw [ih hrest hrest' hmore]

/-- Plain texts are told from how they are quoted. -/
theorem quotedText_inj {text text' : String} (hplain : IsPlain text) (hplain' : IsPlain text')
    (h : quotedText text = quotedText text') : text = text' := by
  have hentity : "#quot;".toList = ['#', 'q', 'u', 'o', 't', ';'] := by decide
  rw [IsPlain, hentity] at hplain hplain'
  have hchars := congrArg (fun quoted => quoted.toList ++ []) h
  simp only [toList_quotedText, List.cons.injEq, true_and] at hchars
  obtain ⟨hsame, -⟩ := append_inj_of_run (fun _ => ne_quote_of_mem_escaped)
    (fun _ => ne_quote_of_mem_escaped) (by simp) (by simp) hchars
  rw [escaped, escaped, String.toList_ofList, String.toList_ofList] at hsame
  exact String.toList_injective (flatMap_writeChar_inj hplain hplain' hsame)

/-- A cell with a plain text is told from what is written in its box. -/
theorem boxText_inj {cell cell' : Cell} (hplain : ∀ text, cell = .literal text → IsPlain text)
    (hplain' : ∀ text, cell' = .literal text → IsPlain text)
    (h : boxText cell = boxText cell') : cell = cell' := by
  have hquoted (text : String) : boxText (.literal text) ≠ boxText .dontCare := by
    intro hsame
    have hchars := congrArg (fun written => written.toList.head?) hsame
    have hnull : "null".toList = ['n', 'u', 'l', 'l'] := by decide
    have hquote := toList_quotedText text []
    rw [List.append_nil] at hquote
    simp [boxText, hquote, hnull] at hchars
  cases cell with
  | literal text =>
    cases cell' with
    | literal text' => rw [quotedText_inj (hplain text rfl) (hplain' text' rfl) h]
    | dontCare => exact absurd h (hquoted text)
  | dontCare =>
    cases cell' with
    | literal text' => exact absurd h.symm (hquoted text')
    | dontCare => rfl

end Mermaid

end Dichotomy
