import Dichotomy.Ingest.File
import Dichotomy.Proofs.Outcomes
import Mathlib.Data.List.Basic

/-!
# Lines of a table file

A text is cut at every character that ends a line.  A carriage return and a line feed count as one
break, so a cut between them makes an empty line that was not there; but empty lines hold no cells,
so nothing comes of it.  Hence the cells of a text are the cells of what stands between any two of
its breaks.

## Main statements

- `filter_cutLines`: the lines that are not empty are the pieces between breaks.
- `cellsOfText_append_break`: a text can be read in two parts.
-/

namespace Dichotomy

/-! ## Pieces between breaks -/

/-- What stands between the characters that end lines, where it is not empty. -/
def pieces (text : List Char) : List (List Char) :=
  (text.splitOnP isLineBreak).filter fun piece => !piece.isEmpty

/-- A break belongs to no piece. -/
theorem pieces_append_cons {c : Char} (hc : isLineBreak c = true) (before after : List Char) :
    pieces (before ++ c :: after) = pieces before ++ pieces after := by
  rw [pieces, List.splitOnP_append_cons before after hc, List.filter_append]
  rfl

/-- A break at the front of a text belongs to no piece, either. -/
theorem pieces_cons {c : Char} (hc : isLineBreak c = true) (text : List Char) :
    pieces (c :: text) = pieces text :=
  pieces_append_cons hc [] text

/-- A text without breaks is one piece, unless it is empty. -/
theorem pieces_of_unbroken {text : List Char} (h : ∀ c ∈ text, isLineBreak c = false) :
    pieces text = [text].filter fun piece => !piece.isEmpty := by
  rw [pieces, List.splitOnP_eq_singleton h]

/-- **Lines and pieces**: the lines that are not empty are the pieces. -/
theorem filter_cutLines {line : List Char} (hline : ∀ c ∈ line, isLineBreak c = false)
    (text : List Char) :
    (cutLines line text).filter (fun piece => !piece.isEmpty) = pieces (line.reverse ++ text) := by
  -- The line read so far is a piece of its own, unless it is empty.
  have hpiece {line : List Char} (hline : ∀ c ∈ line, isLineBreak c = false)
      (rest : List (List Char)) :
      (line.reverse :: rest).filter (fun piece => !piece.isEmpty) =
        pieces line.reverse ++ rest.filter fun piece => !piece.isEmpty := by
    rw [pieces_of_unbroken fun c hc => hline c (List.mem_reverse.mp hc), ← List.filter_append,
      List.singleton_append]
  fun_induction cutLines line text with
  | case1 line hempty =>
    rw [List.isEmpty_iff.mp hempty]
    rfl
  | case2 line hempty => rw [hpiece hline, List.append_nil, List.filter_nil, List.append_nil]
  | case3 line rest ih =>
    -- The line feed of the pair is a break of its own here.
    rw [hpiece hline, ih (by simp), pieces_append_cons (by decide), pieces_cons (by decide)]
    rfl
  | case4 line c rest _ hbreak ih =>
    rw [hpiece hline, ih (by simp), pieces_append_cons hbreak]
    rfl
  | case5 line c rest _ hbreak ih =>
    rw [ih, List.reverse_cons, List.append_assoc, List.singleton_append]
    intro d hd
    rcases List.mem_cons.mp hd with rfl | hd
    · simpa using hbreak
    · exact hline d hd

/-- Lines hold no breaks. -/
theorem unbroken_of_mem_cutLines {line : List Char} (hline : ∀ c ∈ line, isLineBreak c = false)
    (text : List Char) : ∀ cut ∈ cutLines line text, ∀ c ∈ cut, isLineBreak c = false := by
  have hreverse {line : List Char} (hline : ∀ c ∈ line, isLineBreak c = false) :
      ∀ c ∈ line.reverse, isLineBreak c = false := fun c hc => hline c (List.mem_reverse.mp hc)
  fun_induction cutLines line text with
  | case1 line hempty => simp
  | case2 line hempty => exact List.forall_mem_singleton.mpr (hreverse hline)
  | case3 line rest ih => exact List.forall_mem_cons.mpr ⟨hreverse hline, ih (by simp)⟩
  | case4 line c rest _ hbreak ih => exact List.forall_mem_cons.mpr ⟨hreverse hline, ih (by simp)⟩
  | case5 line c rest _ hbreak ih =>
    exact ih (List.forall_mem_cons.mpr ⟨by simpa using hbreak, hline⟩)

theorem unbroken_of_mem_lines {text line : String} (h : line ∈ lines text) :
    ∀ c ∈ line.toList, isLineBreak c = false := by
  obtain ⟨cut, hcut, rfl⟩ := List.mem_map.mp h
  rw [String.toList_ofList]
  exact unbroken_of_mem_cutLines (by simp) text.toList cut hcut

/-! ## Cells of lines -/

/-- The cells of some lines, one line after the other. -/
def cellsOfLines (lines : List (List Char)) : Except Fault (List String) := do
  return (← lines.mapM fun line => Row.cells (String.ofList line)).flatten

theorem cellsOfText_eq_cutLines (text : String) :
    cellsOfText text = cellsOfLines (cutLines [] text.toList) := by
  simp only [cellsOfText, cellsOfLines, lines, List.mapM_map, Function.comp_def]

theorem cellsOfLines_cons (line : List Char) (rest : List (List Char)) :
    cellsOfLines (line :: rest) = do
      return (← Row.cells (String.ofList line)) ++ (← cellsOfLines rest) := by
  simp [cellsOfLines]

theorem cellsOfLines_append (before after : List (List Char)) :
    cellsOfLines (before ++ after) = do
      return (← cellsOfLines before) ++ (← cellsOfLines after) := by
  simp [cellsOfLines]

/-- Empty lines hold no cells. -/
theorem cellsOfLines_filter (lines : List (List Char)) :
    cellsOfLines (lines.filter fun line => !line.isEmpty) = cellsOfLines lines := by
  induction lines with
  | nil => rfl
  | cons line rest ih =>
    cases line with
    | nil =>
      have hempty : Row.cells (String.ofList []) = .ok [] := rfl
      rw [cellsOfLines_cons, hempty, List.filter_cons_of_neg (by simp), ih]
      exact (bind_pure (cellsOfLines rest)).symm
    | cons c line =>
      rw [List.filter_cons_of_pos rfl, cellsOfLines_cons, cellsOfLines_cons, ih]

/-- The cells of a text are those of its pieces. -/
theorem cellsOfText_eq (text : String) : cellsOfText text = cellsOfLines (pieces text.toList) := by
  rw [cellsOfText_eq_cutLines, ← cellsOfLines_filter, filter_cutLines (by simp)]
  rfl

theorem cellsOfText_append_cons {c : Char} (hc : isLineBreak c = true) (before after : List Char) :
    cellsOfText (String.ofList (before ++ c :: after)) = do
      return (← cellsOfText (String.ofList before)) ++ (← cellsOfText (String.ofList after)) := by
  simp only [cellsOfText_eq, String.toList_ofList, pieces_append_cons hc, cellsOfLines_append]

/-- **Reading in two parts**: a text that is cut at a break is read like its two parts, one after
    the other. -/
theorem cellsOfText_append_break {c : Char} (hc : isLineBreak c = true) (before after : String) :
    cellsOfText (before ++ String.singleton c ++ after) = do
      return (← cellsOfText before) ++ (← cellsOfText after) := by
  have happend : before ++ String.singleton c ++ after =
      String.ofList (before.toList ++ c :: after.toList) := by
    simp [← String.toList_inj]
  rw [happend, cellsOfText_append_cons hc, String.ofList_toList, String.ofList_toList]

end Dichotomy
