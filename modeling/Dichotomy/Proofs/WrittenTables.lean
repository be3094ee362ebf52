import Dichotomy.Proofs.LineRows

/-!
# Writing tables

A table file is written by putting each cell between double quotes, doubling those in it, and
joining the cells of a row by commas, by tabs or by spaces.  The rows stand on lines of their own,
with any line breaks between them and blank lines anywhere.

The delimiter of a line is guessed from all of its characters, those within quotes included.  So
tabs can be used only if no cell of the row holds a comma, and spaces only if none holds a comma or
a tab.  Then the guess is right wherever a delimiter is needed, and the quotes keep everything else
that stands in a cell.

## Main statements

- `Row.cells_of_writes`: a written row is read back.
- `cellsOfText_of_writes`: a written table is read back.
-/

namespace Dichotomy

namespace Row

/-! ## Written rows -/

/-- A character between double quotes; a double quote is written twice. -/
def doubled (c : Char) : List Char := if c = '"' then ['"', '"'] else [c]

/-- A cell between double quotes. -/
def quotedField (cell : String) : List Char := '"' :: (cell.toList.flatMap doubled ++ ['"'])

/-- Some cells between double quotes, with a text of some kind between any two neighbours. -/
inductive Joins (gap : List Char → Prop) : List String → List Char → Prop where
  | single (cell : String) : Joins gap [cell] (quotedField cell)
  | cons (cell : String) {between : List Char} {cells : List String} {line : List Char}
      (hgap : gap between) (hrest : Joins gap cells line) :
      Joins gap (cell :: cells) (quotedField cell ++ (between ++ line))

/-- The ways to write a row: with commas, with tabs, or with one or more spaces each time. -/
inductive Writes (cells : List String) (line : List Char) : Prop where
  | commas (h : Joins (· = [',']) cells line)
  | tabs (hcomma : ∀ cell ∈ cells, ',' ∉ cell.toList) (h : Joins (· = ['\t']) cells line)
  | spaces (hcomma : ∀ cell ∈ cells, ',' ∉ cell.toList) (htab : ∀ cell ∈ cells, '\t' ∉ cell.toList)
      (h : Joins (fun between => ∃ more, between = ' ' :: List.replicate more ' ') cells line)

/-- What can be told from a written row: the cells are trimmed, hold no line breaks and are not too
    long, and the last one is not empty. -/
structure IsWritable (cells : List String) : Prop where
  trimmed : ∀ cell ∈ cells, trimmed cell = cell
  unbroken : ∀ cell ∈ cells, ∀ c ∈ cell.toList, isLineBreak c = false
  short : ∀ cell ∈ cells, cell.length ≤ Fault.fieldLimit
  last : ∀ cell ∈ cells.getLast?, cell ≠ ""

namespace Joins

variable {gap : List Char → Prop} {cells : List String} {line : List Char}

theorem mem_quotedField {cell : String} {c : Char} (h : c ∈ quotedField cell) :
    c = '"' ∨ c ∈ cell.toList := by
  simp only [quotedField, List.mem_cons, List.mem_append, List.mem_flatMap, List.not_mem_nil,
    or_false] at h
  rcases h with rfl | ⟨d, hd, hc⟩ | rfl
  · exact .inl rfl
  · rw [doubled] at hc
    split at hc
    · exact .inl (by simpa using hc)
    · obtain rfl : c = d := by simpa using hc
      exact .inr hd
  · exact .inl rfl

/-- Whatever stands in a row is a double quote or comes from a cell or from between two cells. -/
theorem mem_cases (h : Joins gap cells line) {c : Char} (hc : c ∈ line) :
    c = '"' ∨ (∃ cell ∈ cells, c ∈ cell.toList) ∨ ∃ between, gap between ∧ c ∈ between := by
  induction h with
  | single cell =>
    exact (mem_quotedField hc).imp_right fun hc => .inl ⟨cell, List.mem_cons_self, hc⟩
  | @cons cell between cells line hgap hrest ih =>
    rcases List.mem_append.mp hc with hc | hc
    · exact (mem_quotedField hc).imp_right fun hc => .inl ⟨cell, List.mem_cons_self, hc⟩
    · rcases List.mem_append.mp hc with hc | hc
      · exact .inr (.inr ⟨between, hgap, hc⟩)
      · rcases ih hc with hquote | ⟨cell', hcell', hc⟩ | hbetween
        · exact .inl hquote
        · exact .inr (.inl ⟨cell', List.mem_cons_of_mem _ hcell', hc⟩)
        · exact .inr (.inr hbetween)

/-- What stands between cells can be seen in the line. -/
theorem imp {gap' : List Char → Prop} (h : Joins gap cells line)
    (hgap : ∀ between, gap between → between ⊆ line → gap' between) : Joins gap' cells line := by
  induction h with
  | single cell => exact .single cell
  | @cons cell between cells line hbetween hrest ih =>
    refine .cons cell (hgap between hbetween (by simp)) (ih fun other hother hsub => ?_)
    exact hgap other hother fun c hc => by simp [hsub hc]

/-- A row begins and ends with a double quote. -/
theorem exists_body (h : Joins gap cells line) : ∃ body, line = '"' :: (body ++ ['"']) := by
  induction h with
  | single cell => exact ⟨_, rfl⟩
  | @cons cell between cells line hgap hrest ih =>
    obtain ⟨body, rfl⟩ := ih
    exact ⟨cell.toList.flatMap doubled ++ '"' :: (between ++ '"' :: body), by simp [quotedField]⟩

end Joins

/-! ## Reading a written row -/

section Reading

variable {delimiter : Char} {finished : List String}

/-- What is written for a character within quotes puts it into the field. -/
theorem foldlM_doubled {field : Array Char} (hroom : field.size < Fault.fieldLimit) (c : Char) :
    (doubled c).foldlM (Scan.step delimiter) ⟨.inQuotes, field, finished⟩ =
      .ok ⟨.inQuotes, field.push c, finished⟩ := by
  have hpush (place : Place) : Scan.push ⟨place, field, finished⟩ .inQuotes c =
      .ok ⟨.inQuotes, field.push c, finished⟩ := by
    rw [Scan.push, if_neg (Nat.not_le.mpr hroom)]
  rw [doubled]
  split
  next hquote =>
    -- The first quote might end the field, the second one says that it does not.
    subst hquote
    show Scan.push ⟨.afterQuote, field, finished⟩ .inQuotes '"' >>= pure = _
    rw [bind_pure]
    exact hpush _
  next hquote =>
    show Scan.step delimiter ⟨.inQuotes, field, finished⟩ c >>= pure = _
    rw [bind_pure, Scan.step]
    exact (if_neg hquote).trans (hpush _)

/-- What is written for a cell within quotes puts it into the field. -/
theorem foldlM_flatMap_doubled {chars done : List Char}
    (hroom : done.length + chars.length ≤ Fault.fieldLimit) :
    (chars.flatMap doubled).foldlM (Scan.step delimiter) ⟨.inQuotes, done.toArray, finished⟩ =
      .ok ⟨.inQuotes, (done ++ chars).toArray, finished⟩ := by
  induction chars generalizing done with
  | nil =>
    rw [List.append_nil]
    rfl
  | cons c chars ih =>
    rw [List.length_cons] at hroom
    rw [List.flatMap_cons, List.foldlM_append, foldlM_doubled (by simp; omega)]
    show (chars.flatMap doubled).foldlM (Scan.step delimiter)
      ⟨.inQuotes, done.toArray.push c, finished⟩ = _
    rw [List.push_toArray, ih (by simp; omega), List.append_assoc, List.singleton_append]

/-- A cell between double quotes is read as a field, at the end of which the reader then stands. -/
theorem foldlM_quotedField {cell : String} (hshort : cell.length ≤ Fault.fieldLimit) {place : Place}
    (hplace : place = .lineStart ∨ place = .fieldStart) :
    (quotedField cell).foldlM (Scan.step delimiter) ⟨place, #[], finished⟩ =
      .ok ⟨.afterQuote, cell.toList.toArray, finished⟩ := by
  have hopen : Scan.step delimiter ⟨place, #[], finished⟩ '"' = .ok ⟨.inQuotes, #[], finished⟩ := by
    rcases hplace with rfl | rfl <;> rfl
  have hroom : ([] : List Char).length + cell.toList.length ≤ Fault.fieldLimit := by
    rwa [List.length_nil, Nat.zero_add, String.length_toList]
  have hbody : (cell.toList.flatMap doubled).foldlM (Scan.step delimiter)
      ⟨.inQuotes, #[], finished⟩ = .ok ⟨.inQuotes, cell.toList.toArray, finished⟩ :=
    foldlM_flatMap_doubled hroom
  rw [quotedField, List.foldlM_cons, hopen]
  show (cell.toList.flatMap doubled ++ ['"']).foldlM (Scan.step delimiter)
    ⟨.inQuotes, #[], finished⟩ = _
  rw [List.foldlM_append, hbody]
  rfl

/-- A delimiter ends a field, and spaces after it are skipped. -/
theorem foldlM_gap (hdelimiter : delimiter ≠ '"') (more : Nat) (field : Array Char) :
    (delimiter :: List.replicate more ' ').foldlM (Scan.step delimiter)
        ⟨.afterQuote, field, finished⟩ =
      .ok ⟨.fieldStart, #[], String.ofList field.toList :: finished⟩ := by
  have hclose : Scan.step delimiter ⟨.afterQuote, field, finished⟩ delimiter =
      .ok ⟨.fieldStart, #[], String.ofList field.toList :: finished⟩ := by
    rw [Scan.step]
    exact (if_neg hdelimiter).trans (if_pos rfl)
  have hskip : ∀ more finished, (List.replicate more ' ').foldlM (Scan.step delimiter)
      ⟨.fieldStart, #[], finished⟩ = .ok ⟨.fieldStart, #[], finished⟩ := by
    intro more finished
    induction more with
    | zero => rfl
    | succ more ih =>
      rw [List.replicate_succ, List.foldlM_cons]
      exact ih
  rw [List.foldlM_cons, hclose]
  exact hskip more _

/-- **A written row**: its fields are the cells. -/
theorem Joins.exists_scan {cells : List String} {line : List Char}
    (h : Joins (fun between => ∃ more, between = delimiter :: List.replicate more ' ') cells line)
    (hdelimiter : delimiter ≠ '"') (hshort : ∀ cell ∈ cells, cell.length ≤ Fault.fieldLimit)
    {place : Place} (hplace : place = .lineStart ∨ place = .fieldStart) (finished : List String) :
    ∃ s, line.foldlM (Scan.step delimiter) ⟨place, #[], finished⟩ = .ok s ∧
      s.fields = finished.reverse ++ cells := by
  -- By induction on the row: the first cell begins the line, every other one a field.
  induction h generalizing place finished with
  | single cell =>
    refine ⟨_, foldlM_quotedField (hshort cell List.mem_cons_self) hplace, ?_⟩
    simp [Scan.fields, Scan.close]
  | @cons cell between cells line hgap hrest ih =>
    obtain ⟨more, rfl⟩ := hgap
    obtain ⟨s, hs, hfields⟩ := ih (fun other hother => hshort other (List.mem_cons_of_mem _ hother))
      (.inr rfl) (cell :: finished)
    refine ⟨s, ?_, ?_⟩
    · rw [List.foldlM_append, foldlM_quotedField (hshort cell List.mem_cons_self) hplace]
      show ((delimiter :: List.replicate more ' ') ++ line).foldlM (Scan.step delimiter)
        ⟨.afterQuote, cell.toList.toArray, finished⟩ = _
      rw [List.foldlM_append, foldlM_gap hdelimiter, List.toList_toArray, String.ofList_toList]
      exact hs
    · rw [hfields]
      simp

end Reading

/-! ## Delimiters of written rows -/

theorem delimiterOf_ofList (line : List Char) :
    delimiterOf (String.ofList line) =
      if ',' ∈ line then ',' else if '\t' ∈ line then '\t' else ' ' := by
  simp [delimiterOf]

theorem delimiterOf_ne_quote (line : String) : delimiterOf line ≠ '"' := by
  rw [delimiterOf]
  split
  · decide
  · split <;> decide

namespace Writes

variable {cells : List String} {line : List Char}

/-- **Delimiters**: what stands between two cells is the delimiter that is guessed, perhaps with
    spaces after it. -/
theorem joins (h : Writes cells line) :
    Joins (fun between => ∃ more, between = delimiterOf (String.ofList line) ::
      List.replicate more ' ') cells line := by
  -- A delimiter is guessed as soon as it occurs, so those that come first must not occur at all.
  rw [delimiterOf_ofList]
  cases h with
  | commas h =>
    refine h.imp fun between hbetween hsub => ⟨0, ?_⟩
    subst hbetween
    rw [if_pos (hsub List.mem_cons_self)]
    rfl
  | tabs hcomma h =>
    have hnone : ',' ∉ line := by
      intro hmem
      rcases h.mem_cases hmem with hquote | ⟨cell, hcell, hmem⟩ | ⟨between, rfl, hmem⟩
      · cases hquote
      · exact hcomma cell hcell hmem
      · cases List.mem_singleton.mp hmem
    refine h.imp fun between hbetween hsub => ⟨0, ?_⟩
    subst hbetween
    rw [if_neg hnone, if_pos (hsub List.mem_cons_self)]
    rfl
  | spaces hcomma htab h =>
    have hnone {c : Char} (hquote : c ≠ '"') (hspace : c ≠ ' ')
        (hcells : ∀ cell ∈ cells, c ∉ cell.toList) : c ∉ line := by
      intro hmem
      rcases h.mem_cases hmem with rfl | ⟨cell, hcell, hmem⟩ | ⟨between, ⟨more, rfl⟩, hmem⟩
      · exact hquote rfl
      · exact hcells cell hcell hmem
      · rcases List.mem_cons.mp hmem with rfl | hmem
        · exact hspace rfl
        · exact hspace (List.eq_of_mem_replicate hmem)
    rwa [if_neg (hnone (by decide) (by decide) hcomma), if_neg (hnone (by decide) (by decide) htab)]

/-- A written row holds no line breaks. -/
theorem unbroken (h : Writes cells line) (hcells : IsWritable cells) :
    ∀ c ∈ line, isLineBreak c = false := by
  intro c hc
  rcases h.joins.mem_cases hc with rfl | ⟨cell, hcell, hc⟩ | ⟨between, ⟨more, rfl⟩, hc⟩
  · decide
  · exact hcells.unbroken cell hcell c hc
  · rcases List.mem_cons.mp hc with rfl | hc
    · rw [delimiterOf_ofList]
      split
      · decide
      · split <;> decide
    · rw [List.eq_of_mem_replicate hc]
      decide

end Writes

/-- **Rows**: a row is read back from what is written for it. -/
theorem cells_of_writes {row : List String} {line : List Char} (h : Writes row line)
    (hrow : IsWritable row) : cells (String.ofList line) = .ok row := by
  obtain ⟨s, hs, hfields⟩ := h.joins.exists_scan (delimiterOf_ne_quote _) hrow.short (.inl rfl) []
  obtain ⟨body, hbody⟩ := h.joins.exists_body
  have htrimmed : trimmed (String.ofList line) = String.ofList line := by
    -- There is a double quote at both ends.
    have hquote : isBlank '"' = false := by decide
    rw [trimmed, String.toList_ofList, hbody]
    simp [trimBoth, hquote]
  have hne : String.ofList line ≠ "" := by simp [hbody]
  have hcontent : content (String.ofList line) = String.ofList line := by
    rw [content, htrimmed, ite_self]
  -- The fields are the cells, which trimming does not change, nor the cut at the last one.
  have hread : fields (delimiterOf (String.ofList line)) (String.ofList line) = .ok row := by
    rw [fields, String.toList_ofList, Scan.start, hs]
    exact congrArg Except.ok hfields
  have hmap : row.map trimmed = row :=
    (List.map_congr_left hrow.trimmed).trans (List.map_id row)
  have hdrop : dropTrailingEmpty row = row := by
    refine List.rdropWhile_eq_self_iff.mpr fun hne => ?_
    simpa using hrow.last _ (List.getLast?_eq_some_getLast hne)
  rw [cells_eq, htrimmed, if_neg hne, hcontent, hread]
  show Except.ok (dropTrailingEmpty (row.map trimmed)) = .ok row
  rw [hmap, hdrop]

end Row

/-! ## Written tables -/

/-- What may stand between two lines. -/
inductive EndsLine : List Char → Prop where
  | single {c : Char} (h : isLineBreak c = true) : EndsLine [c]
  | pair : EndsLine ['\r', '\n']

/-- A line of a table file: a blank line, or a row. -/
inductive WritesLine : List (List String) → List Char → Prop where
  | blank {line : List Char} (hblank : ∀ c ∈ line, isBlank c = true)
      (hunbroken : ∀ c ∈ line, isLineBreak c = false) : WritesLine [] line
  | row {row : List String} {line : List Char} (h : Row.Writes row line) : WritesLine [row] line

/-- A table file that holds some rows. -/
inductive WritesTable : List (List String) → List Char → Prop where
  | line {rows : List (List String)} {line : List Char} (h : WritesLine rows line) :
      WritesTable rows line
  | lines {rows rows' : List (List String)} {line ends text : List Char} (h : WritesLine rows line)
      (hends : EndsLine ends) (hrest : WritesTable rows' text) :
      WritesTable (rows ++ rows') (line ++ (ends ++ text))

/-- One line is read back. -/
theorem WritesLine.cellsOfText_eq {rows : List (List String)} {line : List Char}
    (h : WritesLine rows line) (hrows : ∀ row ∈ rows, Row.IsWritable row) :
    cellsOfText (String.ofList line) = .ok rows.flatten := by
  have hline (hunbroken : ∀ c ∈ line, isLineBreak c = false) :
      cellsOfText (String.ofList line) = cellsOfLines [line] := by
    rw [Dichotomy.cellsOfText_eq, String.toList_ofList, pieces_of_unbroken hunbroken,
      cellsOfLines_filter]
  cases h with
  | blank hblank hunbroken =>
    have htrimmed : trimmed (String.ofList line) = "" := by
      rw [trimmed, String.toList_ofList, trimBoth, List.dropWhile_eq_nil_iff.mpr hblank]
      rfl
    rw [hline hunbroken, cellsOfLines_cons, Row.cells_eq, if_pos htrimmed]
    rfl
  | @row row _ h =>
    have hrow := hrows row List.mem_cons_self
    rw [hline (h.unbroken hrow), cellsOfLines_cons, Row.cells_of_writes h hrow]
    rfl

/-- A text with a line in front is read after the line. -/
theorem EndsLine.cellsOfText_eq {ends : List Char} (h : EndsLine ends) (line text : List Char) :
    cellsOfText (String.ofList (line ++ (ends ++ text))) = do
      return (← cellsOfText (String.ofList line)) ++ (← cellsOfText (String.ofList text)) := by
  cases h with
  | single h => exact cellsOfText_append_cons h line text
  | pair =>
    -- Between the two characters there is an empty line.
    have hfeed : cellsOfText (String.ofList ('\n' :: text)) = cellsOfText (String.ofList text) := by
      simp only [Dichotomy.cellsOfText_eq, String.toList_ofList,
        pieces_cons (c := '\n') (by decide)]
    show cellsOfText (String.ofList (line ++ '\r' :: ('\n' :: text))) = _
    rw [cellsOfText_append_cons (by decide), hfeed]

/-- **Reading undoes writing**: the cells of a table file are those of the rows it was written
    from, if these can be told from what is written. -/
theorem cellsOfText_of_writes {rows : List (List String)} {text : String}
    (h : WritesTable rows text.toList) (hrows : ∀ row ∈ rows, Row.IsWritable row) :
    cellsOfText text = .ok rows.flatten := by
  rw [← text.ofList_toList]
  generalize text.toList = chars at h
  induction h with
  | line h => exact h.cellsOfText_eq hrows
  | lines h hends hrest ih =>
    obtain ⟨hfirst, hothers⟩ := List.forall_mem_append.mp hrows
    rw [hends.cellsOfText_eq, h.cellsOfText_eq hfirst, ih hothers, List.flatten_append]
    rfl

/-- A row with commas, a blank line, a row with tabs, and one with spaces, some of them empty in the
    middle. -/
theorem cellsOfText_of_writes_three :
    let rows := [["a \"b\", c", "", "x\ty"], ["p q", "r"], ["u", "", "v"]]
    let text := "\"a \"\"b\"\", c\",\"\",\"x\ty\"\r\n \t\n\"p q\"\t\"r\"\u2028\"u\" \"\"   \"v\""
    WritesTable rows text.toList ∧ (∀ row ∈ rows, Row.IsWritable row) ∧
      cellsOfText text = .ok ["a \"b\", c", "", "x\ty", "p q", "r", "u", "", "v"] := by
  intro rows text
  have hcommas : Row.Writes ["a \"b\", c", "", "x\ty"] _ :=
    .commas (.cons _ rfl (.cons _ rfl (.single _)))
  have htabs : Row.Writes ["p q", "r"] _ := .tabs (by decide) (.cons _ rfl (.single _))
  have hspaces : Row.Writes ["u", "", "v"] _ :=
    .spaces (by decide) (by decide) (.cons _ ⟨0, rfl⟩ (.cons _ ⟨2, rfl⟩ (.single _)))
  have hblank : WritesLine [] [' ', '\t'] :=
    .blank (List.all_eq_true.mp (by decide)) (by simp [isLineBreak, lineBreakCodes])
  have hwritten := WritesTable.lines (.row hcommas) .pair
    (.lines hblank (.single (c := '\n') (by decide))
      (.lines (.row htabs) (.single (c := '\u2028') (by decide)) (.line (.row hspaces))))
  have htext : WritesTable rows text.toList := by
    convert hwritten using 1
    · rfl
    · decide
  have hrows : ∀ row ∈ rows, Row.IsWritable row := by
    intro row hrow
    simp only [rows, List.mem_cons, List.not_mem_nil, or_false] at hrow
    rcases hrow with rfl | rfl | rfl
    · exact ⟨by decide, by simp [isLineBreak, lineBreakCodes], by decide, by decide⟩
    · exact ⟨by decide, by simp [isLineBreak, lineBreakCodes], by decide, by decide⟩
    · exact ⟨by decide, by simp [isLineBreak, lineBreakCodes], by decide, by decide⟩
  exact ⟨htext, hrows, cellsOfText_of_writes htext hrows⟩

end Dichotomy
