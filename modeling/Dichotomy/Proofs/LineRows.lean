import Dichotomy.Proofs.TextLines
import Mathlib.Data.List.DropRight

/-!
# Rows of lines

A reader of several lines yields a row for each line, unless a quote is open at the end of one:
then the row goes on in the next line.  Table files are read one line at a time, so a quote that is
left open ends with its line, and each line is exactly one row.

Nothing in a line can stop the reader but a field that is too long: the fault of a line break within
a row needs a line break, and lines hold none.  Hence short lines are always read, whatever stands
in them.

## Main statements

- `Row.rows_singleton`: one line is one row.
- `Row.Scan.reads_step`, `Row.Scan.reads_foldlM`: what reading a character and a line can do.
- `cellsOfText_total`: all texts with short lines are read, each line for itself.
-/

namespace Dichotomy

namespace Row

/-! ## Rows of several lines -/

/-- Comes to the end of a line: this ends the row, unless a quote is open. -/
def Scan.endLine (s : Scan) : Scan :=
  match s.place with
  | .lineStart | .inQuotes => s
  | .afterBreak => s.moveTo .lineStart
  | .fieldStart | .inField | .afterQuote => s.close .lineStart

/-- The rows of some lines, the first of which goes on with what has been read before. -/
def rowsFrom (delimiter : Char) (s : Scan) : List String → Except Fault (List (List String))
  | [] => .ok (if s.place = .inQuotes then [s.fields] else [])
  | line :: rest => do
    let s ← line.toList.foldlM (Scan.step delimiter) s
    if s.endLine.place = .lineStart then
      return s.endLine.finished.reverse :: (← rowsFrom delimiter Scan.start rest)
    else rowsFrom delimiter s.endLine rest

/-- The rows of some lines. -/
def rows (delimiter : Char) (lines : List String) : Except Fault (List (List String)) :=
  rowsFrom delimiter Scan.start lines

/-- **One row**: one line is read as one row, if it can be read. -/
theorem rows_singleton (delimiter : Char) (line : String) :
    rows delimiter [line] = do return [← fields delimiter line] := by
  rw [rows, rowsFrom, fields]
  cases line.toList.foldlM (Scan.step delimiter) Scan.start with
  | error fault => rfl
  | ok s =>
    cases s with
    | mk place field finished => cases place <;> rfl

/-- Over two lines, a quote that is left open would join what stands on both. -/
example : rows ',' ["A,\"B", "C\",D"] = .ok [["A", "BC", "D"]] := rfl

/-! ## Reading within a line -/

namespace Scan

/-- What comes of reading some characters of a line: the reader is still within the line and its
    field has grown by no more than they are, or the field has become too long. -/
inductive Reads (s : Scan) (count : Nat) : Except Fault Scan → Prop where
  | goesOn {s' : Scan} (hplace : s'.place ≠ .afterBreak)
      (hsize : s'.field.size ≤ s.field.size + count) : Reads s count (.ok s')
  | stops (hsize : Fault.fieldLimit < s.field.size + count) : Reads s count (.error .longField)

variable {s : Scan} {place : Place}

theorem reads_moveTo (hplace : place ≠ .afterBreak) : s.Reads 1 (.ok (s.moveTo place)) :=
  .goesOn hplace (Nat.le_succ _)

theorem reads_close (hplace : place ≠ .afterBreak) : s.Reads 1 (.ok (s.close place)) :=
  .goesOn hplace (Nat.zero_le _)

theorem reads_push (c : Char) (hplace : place ≠ .afterBreak) : s.Reads 1 (s.push place c) := by
  rw [push]
  split
  next hfull => exact .stops (Nat.lt_succ_of_le hfull)
  next => exact .goesOn hplace (by simp)

/-- Outside of quotes, a delimiter ends the field and any other character belongs to it. -/
theorem reads_plain (delimiter c : Char) :
    s.Reads 1 (if c = delimiter then .ok (s.close .fieldStart) else s.push .inField c) := by
  split
  · exact reads_close (by decide)
  · exact reads_push c (by decide)

/-- **One character**: within a line only the length of a field can stop the reader. -/
theorem reads_step {c : Char} (hplace : s.place ≠ .afterBreak) (hc : isBreak c = false)
    (delimiter : Char) : s.Reads 1 (step delimiter s c) := by
  have hbreak : ¬isBreak c = true := by simp [hc]
  -- The one place that refuses characters is behind a break, and only a break leads there.
  rw [step]
  cases h : s.place with
  | afterBreak => exact absurd h hplace
  | lineStart =>
    simp only [if_neg hbreak]
    split
    · exact reads_moveTo (by decide)
    · split
      · exact reads_moveTo (by decide)
      · exact reads_plain delimiter c
  | fieldStart =>
    simp only [if_neg hbreak]
    split
    · exact reads_moveTo (by decide)
    · split
      · exact .goesOn hplace (Nat.le_succ _)
      · exact reads_plain delimiter c
  | inField =>
    simp only [if_neg hbreak]
    exact reads_plain delimiter c
  | inQuotes =>
    show s.Reads 1 (if c = '"' then .ok (s.moveTo .afterQuote) else s.push .inQuotes c)
    split
    · exact reads_moveTo (by decide)
    · exact reads_push c (by decide)
  | afterQuote =>
    simp only [if_neg hbreak]
    split
    · exact reads_push c (by decide)
    · exact reads_plain delimiter c

/-- What is read next, the field having grown before. -/
theorem Reads.grow {s' : Scan} {x : Except Fault Scan} {count more : Nat} (h : s'.Reads more x)
    (hsize : s'.field.size ≤ s.field.size + count) : s.Reads (count + more) x := by
  cases h with
  | stops hsize' => exact .stops (by omega)
  | goesOn hplace hsize' => exact .goesOn hplace (by omega)

/-- What is read next goes on from where the reader stands. -/
theorem Reads.bind {x : Except Fault Scan} {f : Scan → Except Fault Scan} {count more : Nat}
    (h : s.Reads count x) (hnext : ∀ s' : Scan, s'.place ≠ .afterBreak → s'.Reads more (f s')) :
    s.Reads (count + more) (x >>= f) := by
  cases h with
  | stops hsize => exact .stops (by omega)
  | goesOn hplace hsize => exact (hnext _ hplace).grow hsize

/-- **A whole line**: the same holds for all characters of a line. -/
theorem reads_foldlM {line : List Char} (hplace : s.place ≠ .afterBreak)
    (hline : ∀ c ∈ line, isBreak c = false) (delimiter : Char) :
    s.Reads line.length (line.foldlM (step delimiter) s) := by
  -- By induction on the line, from any place but the one behind a break.
  induction line generalizing s with
  | nil => exact .goesOn hplace (Nat.le_refl _)
  | cons c line ih =>
    rw [List.foldlM_cons, List.length_cons, Nat.add_comm]
    refine (reads_step hplace (hline c List.mem_cons_self) delimiter).bind fun s' hplace' => ?_
    exact ih hplace' fun d hd => hline d (List.mem_cons_of_mem _ hd)

end Scan

/-- A line is read as fields unless one of them is too long. -/
theorem fields_cases {line : String} (hline : ∀ c ∈ line.toList, Scan.isBreak c = false)
    (delimiter : Char) :
    (∃ row, fields delimiter line = .ok row) ∨
      fields delimiter line = .error .longField ∧ Fault.fieldLimit < line.length := by
  have hreads := Scan.reads_foldlM (s := Scan.start) (by decide) hline delimiter
  rw [String.length_toList] at hreads
  rw [fields]
  generalize line.toList.foldlM (Scan.step delimiter) Scan.start = outcome at hreads ⊢
  cases hreads with
  | goesOn => exact .inl ⟨_, rfl⟩
  | stops hsize => exact .inr ⟨rfl, by simpa [Scan.start] using hsize⟩

end Row

/-! ## Trimming -/

section Trimming

variable {α : Type} (p : α → Bool)

theorem trimBoth_sublist (xs : List α) : (trimBoth p xs).Sublist xs :=
  (List.rdropWhile_prefix p _).sublist.trans (List.dropWhile_suffix p).sublist

/-- What has been trimmed has nothing at its ends that is trimmed. -/
theorem trimBoth_trimBoth (xs : List α) : trimBoth p (trimBoth p xs) = trimBoth p xs := by
  have htrim (ys : List α) : trimBoth p ys = (ys.dropWhile p).rdropWhile p := rfl
  have hfront : ((xs.dropWhile p).rdropWhile p).dropWhile p = (xs.dropWhile p).rdropWhile p := by
    refine List.dropWhile_eq_self_iff.mpr fun hlength => ?_
    have hne := List.ne_nil_of_length_pos hlength
    -- The back is trimmed last, which leaves the first entry where it was.
    have hhead := (List.rdropWhile_prefix p (xs.dropWhile p)).head hne
    rw [← List.head_eq_getElem hne, hhead]
    exact Bool.eq_false_iff.mp (List.head_dropWhile_not p _)
  rw [htrim, htrim, hfront, List.rdropWhile_idempotent]

end Trimming

@[simp] theorem trimmed_trimmed (text : String) : trimmed (trimmed text) = trimmed text := by
  rw [trimmed, trimmed, String.toList_ofList, trimBoth_trimBoth]

theorem toList_trimmed_sublist (text : String) : (trimmed text).toList.Sublist text.toList := by
  rw [trimmed, String.toList_ofList]
  exact trimBoth_sublist isBlank text.toList

/-! ## Cells of a line -/

namespace Row

/-- What is read of a line. -/
def content (line : String) : String :=
  if delimiterOf line = ' ' then trimmed line else line

theorem toList_content_sublist (line : String) : (content line).toList.Sublist line.toList := by
  rw [content]
  split
  · exact toList_trimmed_sublist line
  · exact .refl _

theorem trimmed_content (line : String) : trimmed (content line) = trimmed line := by
  rw [content]
  split
  · exact trimmed_trimmed line
  · rfl

/-- A line that is not blank is read as fields. -/
theorem cells_eq (line : String) :
    cells line = if trimmed line = "" then .ok [] else do
      return dropTrailingEmpty ((← fields (delimiterOf line) (content line)).map trimmed) := by
  rw [← trimmed_content line]
  rfl

theorem mem_of_mem_dropTrailingEmpty {cells : List String} {cell : String}
    (h : cell ∈ dropTrailingEmpty cells) : cell ∈ cells :=
  (List.rdropWhile_prefix _ _).subset h

/-- Cells have been trimmed. -/
theorem trimmed_of_mem_cells {line cell : String} {row : List String} (h : cells line = .ok row)
    (hcell : cell ∈ row) : trimmed cell = cell := by
  rw [cells_eq] at h
  split at h
  next =>
    obtain rfl := Except.ok.inj h
    cases hcell
  next =>
    obtain ⟨_, -, h⟩ := exists_of_bind_eq_ok h
    obtain rfl := Except.ok.inj h
    obtain ⟨text, -, rfl⟩ := List.mem_map.mp (mem_of_mem_dropTrailingEmpty hcell)
    exact trimmed_trimmed text

/-- **One line**: its fields and its cells are found unless it is too long. -/
theorem cells_cases {line : String} (hline : ∀ c ∈ line.toList, Scan.isBreak c = false) :
    (∃ row, fields (delimiterOf line) (content line) = .ok row ∧ ∃ row, cells line = .ok row) ∨
      Fault.fieldLimit < line.length ∧
        ∀ fault, cells line = .error fault → fault = .longField := by
  -- What is read is a part of the line: no longer, and without breaks as well.
  have hsublist := toList_content_sublist line
  have hle := hsublist.length_le
  rw [String.length_toList, String.length_toList] at hle
  rcases fields_cases (fun c hc => hline c (hsublist.subset hc)) (delimiterOf line) with
    ⟨row, hrow⟩ | ⟨hfault, hlength⟩
  · refine .inl ⟨row, hrow, ?_⟩
    rw [cells_eq, hrow]
    split
    · exact ⟨_, rfl⟩
    · exact ⟨_, rfl⟩
  · refine .inr ⟨by omega, fun fault h => ?_⟩
    rw [cells_eq, hfault] at h
    split at h
    · cases h
    · exact (Except.error.inj h).symm

/-- A break within a row would be a break between lines. -/
theorem isBreak_eq_false {c : Char} (h : isLineBreak c = false) : Scan.isBreak c = false := by
  rw [Scan.isBreak, Bool.or_eq_false_iff, decide_eq_false_iff_not, decide_eq_false_iff_not]
  constructor
  · rintro rfl
    exact absurd h (by decide)
  · rintro rfl
    exact absurd h (by decide)

end Row

/-! ## Cells of a text -/

variable {text : String}

theorem isBreak_eq_false_of_mem_lines {line : String} (h : line ∈ lines text) :
    ∀ c ∈ line.toList, Row.Scan.isBreak c = false := fun c hc =>
  Row.isBreak_eq_false (unbroken_of_mem_lines h c hc)

/-- The cells of a text are found unless a line of it is too long. -/
theorem cellsOfText_cases (text : String) :
    (∃ cells, cellsOfText text = .ok cells) ∨
      cellsOfText text = .error .longField ∧
        ∃ line ∈ lines text, Fault.fieldLimit < line.length := by
  rw [cellsOfText]
  rcases mapM_cases Row.cells (lines text) with ⟨rows, hrows⟩ | ⟨line, hline, fault, hfault, hlines⟩
  · rw [hrows]
    exact .inl ⟨_, rfl⟩
  · rw [hlines]
    -- The text fails as one of its lines does, and a line fails only if it is too long.
    rcases Row.cells_cases (isBreak_eq_false_of_mem_lines hline) with ⟨-, -, row, hrow⟩ | hlong
    · rw [hfault] at hrow
      cases hrow
    · obtain rfl := hlong.2 fault hfault
      exact .inr ⟨rfl, line, hline, hlong.1⟩

theorem trimmed_of_mem_cellsOfText {cells : List String} (h : cellsOfText text = .ok cells) :
    ∀ cell ∈ cells, trimmed cell = cell := by
  obtain ⟨rows, hrows, h⟩ := exists_of_bind_eq_ok h
  obtain rfl := Except.ok.inj h
  intro cell hcell
  obtain ⟨row, hrow, hcell⟩ := List.mem_flatten.mp hcell
  obtain ⟨line, -, hline⟩ := exists_mem_of_mapM_eq_ok hrows row hrow
  exact Row.trimmed_of_mem_cells hline hcell

/-- **Reading tables**: if the lines of a text are short enough, each line that is not blank is one
    row, from which its cells are taken, and so the cells of the text are found.  Cells are
    trimmed.  The only fault there can be is a field that is too long, in a line that is too long.
    And every line is read for itself: what stands in front of a line feed does not matter for what
    stands behind it. -/
theorem cellsOfText_total (text : String) :
    ((∀ line ∈ lines text, line.length ≤ Fault.fieldLimit) →
        (∀ line ∈ lines text, trimmed line ≠ "" →
          ∃ row, Row.rows (Row.delimiterOf line) [Row.content line] = .ok [row] ∧
            Row.cells line = .ok (Row.dropTrailingEmpty (row.map trimmed))) ∧
        ∃ cells, cellsOfText text = .ok cells) ∧
      (∀ cells, cellsOfText text = .ok cells → ∀ cell ∈ cells, trimmed cell = cell) ∧
      (∀ fault, cellsOfText text = .error fault →
        fault = .longField ∧ ∃ line ∈ lines text, Fault.fieldLimit < line.length) ∧
      ∀ other : String, cellsOfText (text ++ "\n" ++ other) = do
        return (← cellsOfText text) ++ (← cellsOfText other) := by
  have hfeed : "\n" = String.singleton '\n' := rfl
  refine ⟨fun hshort => ⟨fun line hline hblank => ?_, ?_⟩, fun cells h => ?_, fun fault h => ?_, ?_⟩
  · rcases Row.cells_cases (isBreak_eq_false_of_mem_lines hline) with ⟨row, hrow, -⟩ | hlong
    · refine ⟨row, ?_, ?_⟩
      · rw [Row.rows_singleton, hrow]
        rfl
      · rw [Row.cells_eq, if_neg hblank, hrow]
        rfl
    · exact absurd (hshort line hline) (Nat.not_le.mpr hlong.1)
  · rcases cellsOfText_cases text with hcells | ⟨-, line, hline, hlong⟩
    · exact hcells
    · exact absurd (hshort line hline) (Nat.not_le.mpr hlong)
  · exact trimmed_of_mem_cellsOfText h
  · rcases cellsOfText_cases text with ⟨cells, hcells⟩ | ⟨hfault, hlong⟩
    · rw [hcells] at h
      cases h
    · rw [hfault] at h
      exact ⟨(Except.error.inj h).symm, hlong⟩
  · rw [hfeed]
    exact cellsOfText_append_break (by decide) text

/-- Quotes that are left open, one in a field that is not quoted, and a blank line. -/
theorem cellsOfText_total_open_quotes :
    (∀ line ∈ lines "A,\"B \n\"C\"D\" E\r\n \t\n\"", line.length ≤ Fault.fieldLimit) ∧
      "A,\"B " ∈ lines "A,\"B \n\"C\"D\" E\r\n \t\n\"" ∧ trimmed "A,\"B " ≠ "" ∧
      (∃ row, Row.rows (Row.delimiterOf "A,\"B ") [Row.content "A,\"B "] = .ok [row] ∧
        Row.cells "A,\"B " = .ok (Row.dropTrailingEmpty (row.map trimmed))) ∧
      cellsOfText "A,\"B \n\"C\"D\" E\r\n \t\n\"" = .ok ["A", "B", "CD\"", "E"] ∧
      (∀ cell ∈ ["A", "B", "CD\"", "E"], trimmed cell = cell) ∧
      cellsOfText ("A,\"B \n\"C\"D\" E\r\n \t\n\"" ++ "\n" ++ "F") =
        .ok ["A", "B", "CD\"", "E", "F"] := by
  obtain ⟨htotal, htrimmed, -, hparts⟩ := cellsOfText_total "A,\"B \n\"C\"D\" E\r\n \t\n\""
  have hshort : ∀ line ∈ lines "A,\"B \n\"C\"D\" E\r\n \t\n\"",
      line.length ≤ Fault.fieldLimit := by decide
  have hline : "A,\"B " ∈ lines "A,\"B \n\"C\"D\" E\r\n \t\n\"" := by decide
  have hblank : trimmed "A,\"B " ≠ "" := by decide
  have hcells : cellsOfText "A,\"B \n\"C\"D\" E\r\n \t\n\"" = .ok ["A", "B", "CD\"", "E"] := rfl
  have hmore : cellsOfText "F" = .ok ["F"] := rfl
  refine ⟨hshort, hline, hblank, (htotal hshort).1 _ hline hblank, hcells, htrimmed _ hcells, ?_⟩
  rw [hparts, hcells, hmore]
  rfl

end Dichotomy
