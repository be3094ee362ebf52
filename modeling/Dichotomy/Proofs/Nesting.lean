import Dichotomy.Ingest.RawCell
import Dichotomy.Search.Report
import Mathlib.Logic.Relation

/-!
# Nested rows

Rows only group the entries of a table.  Reading goes through the entries in their order, however
deep they are nested, and reads each of them for itself: a cell that has been read already is that
cell, and any other entry is the cell of its text.  So nothing is read differently when rows are
dissolved into their entries or entries are put into rows, and cells are not read a second time.

## Main statements

- `RawCell.regrouped_iff`: tables are grouped differently exactly if they have the same entries.
- `RawCell.tableCells_row`: a table is read entry by entry.
- `RawCell.reads_entries_in_order`: what reading makes of rows, of parts and of cells.
-/

namespace Dichotomy

namespace RawCell

/-! ## Entries in their order -/

/-- Whether an entry is a row. -/
def isRow : RawCell → Bool
  | row _ => true
  | _ => false

mutual

/-- What an entry holds that is no row: the entry itself, or what is in it if it is a row. -/
def entries : RawCell → List RawCell
  | row content => entriesOfAll content
  | entry => [entry]

/-- What several entries hold that is no row, in their order. -/
def entriesOfAll : List RawCell → List RawCell
  | [] => []
  | entry :: rest => entry.entries ++ entriesOfAll rest

end

theorem entries_row (content : List RawCell) : (row content).entries = entriesOfAll content := by
  rw [entries]

theorem entries_of_isRow_eq_false {entry : RawCell} (h : entry.isRow = false) :
    entry.entries = [entry] := by
  cases entry with
  | row content => cases h
  | _ => simp [entries]

theorem entriesOfAll_append (first second : List RawCell) :
    entriesOfAll (first ++ second) = entriesOfAll first ++ entriesOfAll second := by
  induction first with
  | nil => simp [entriesOfAll]
  | cons entry first ih => simp [entriesOfAll, ih]

theorem entriesOfAll_of_noRows {table : List RawCell} (h : ∀ entry ∈ table, entry.isRow = false) :
    entriesOfAll table = table := by
  induction table with
  | nil => rw [entriesOfAll]
  | cons entry table ih =>
    obtain ⟨hentry, htable⟩ := List.forall_mem_cons.mp h
    -- Nothing is opened, so every entry stays where it is.
    rw [entriesOfAll, entries_of_isRow_eq_false hentry, ih htable]
    rfl

mutual

theorem isRow_of_mem_entries {found : RawCell} :
    ∀ entry : RawCell, found ∈ entry.entries → found.isRow = false
  | row content, h => isRow_of_mem_entriesOfAll content (by rwa [entries] at h)
  | text _, h | integer _, h | real _, h | truth _, h | nothing, h | record _, h | known _, h => by
    simp only [entries, List.mem_singleton] at h
    rw [h, isRow]
    simp

theorem isRow_of_mem_entriesOfAll {found : RawCell} :
    ∀ table : List RawCell, found ∈ entriesOfAll table → found.isRow = false
  | [], h => by simp [entriesOfAll] at h
  | entry :: rest, h => by
    rw [entriesOfAll, List.mem_append] at h
    rcases h with h | h
    · exact isRow_of_mem_entries entry h
    · exact isRow_of_mem_entriesOfAll rest h

end

/-! ## Grouping entries -/

/-- One row of a table is dissolved into its entries. -/
inductive Dissolves : List RawCell → List RawCell → Prop where
  | row (before content after : List RawCell) :
      Dissolves (before ++ row content :: after) (before ++ content ++ after)

/-- Two tables are grouped differently if rows of either one can be dissolved and others made, any
    number of times, so that one comes out of the other. -/
abbrev Regrouped : List RawCell → List RawCell → Prop := Relation.EqvGen Dissolves

theorem Dissolves.entriesOfAll_eq {table other : List RawCell} (h : Dissolves table other) :
    entriesOfAll table = entriesOfAll other := by
  cases h with
  | row before content after =>
    simp [entriesOfAll_append, entriesOfAll, entries_row]

/-- What stands before and after a part of a table is left alone when the part is regrouped. -/
theorem Regrouped.within (before after : List RawCell) {part other : List RawCell}
    (h : Regrouped part other) :
    Regrouped (before ++ part ++ after) (before ++ other ++ after) := by
  induction h with
  | rel part other h =>
    cases h with
    | row first content last =>
      -- The same row is dissolved, only further from the ends of the table.
      have hdissolves := Dissolves.row (before ++ first) content (last ++ after)
      apply Relation.EqvGen.rel
      simpa using hdissolves
  | refl part => exact .refl _
  | symm part other _ ih => exact ih.symm
  | trans part middle other _ _ ihFirst ihSecond => exact ihFirst.trans _ _ _ ihSecond

theorem Regrouped.append {first first' second second' : List RawCell}
    (hfirst : Regrouped first first') (hsecond : Regrouped second second') :
    Regrouped (first ++ second) (first' ++ second') := by
  have hleft := hfirst.within [] second
  have hright := hsecond.within first' []
  simp only [List.nil_append, List.append_nil] at hleft hright
  exact hleft.trans _ _ _ hright

mutual

theorem regrouped_entries : ∀ entry : RawCell, Regrouped [entry] entry.entries
  | row content => by
    -- The row is dissolved first, then what was in it.
    have hrow : Regrouped [row content] content := by
      apply Relation.EqvGen.rel
      simpa using Dissolves.row [] content []
    rw [entries_row]
    exact hrow.trans _ _ _ (regrouped_entriesOfAll content)
  | text _ | integer _ | real _ | truth _ | nothing | record _ | known _ => by
    rw [entries_of_isRow_eq_false rfl]
    exact .refl _

/-- All rows of a table can be dissolved. -/
theorem regrouped_entriesOfAll : ∀ table : List RawCell, Regrouped table (entriesOfAll table)
  | [] => by
    rw [entriesOfAll]
    exact .refl _
  | entry :: rest => by
    rw [entriesOfAll]
    exact Regrouped.append (regrouped_entries entry) (regrouped_entriesOfAll rest)

end

/-- **Grouping**: tables are grouped differently exactly if they have the same entries in the same
    order. -/
theorem regrouped_iff {table other : List RawCell} :
    Regrouped table other ↔ entriesOfAll table = entriesOfAll other := by
  constructor
  · intro h
    induction h with
    | rel _ _ h => exact h.entriesOfAll_eq
    | refl => rfl
    | symm _ _ _ ih => exact ih.symm
    | trans _ _ _ _ _ ihFirst ihSecond => exact ihFirst.trans ihSecond
  · intro h
    -- Both tables are taken apart down to the list of entries that they share.
    have hother := regrouped_entriesOfAll other
    rw [← h] at hother
    exact (regrouped_entriesOfAll table).trans _ _ _ hother.symm

/-! ## Reading entries -/

/-- The cell of an entry that is no row. -/
def cell (marker : String) : RawCell → Cell
  | known cell => cell
  | entry => Cell.ofText marker entry.asText

mutual

theorem cells_eq_map (marker : String) :
    ∀ entry : RawCell, entry.cells marker = entry.entries.map (cell marker)
  | row content => by rw [cells, entries_row, cellsOfAll_eq_map marker content]
  | text _ | integer _ | real _ | truth _ | nothing | record _ | known _ => by
    rw [entries_of_isRow_eq_false rfl, cells]
    rfl

theorem cellsOfAll_eq_map (marker : String) :
    ∀ table : List RawCell, cellsOfAll marker table = (entriesOfAll table).map (cell marker)
  | [] => by rw [cellsOfAll, entriesOfAll, List.map_nil]
  | entry :: rest => by
    rw [cellsOfAll, entriesOfAll, List.map_append, cells_eq_map marker entry,
      cellsOfAll_eq_map marker rest]

end

/-- A table is read entry by entry. -/
theorem tableCells_row (marker : String) (table : List RawCell) :
    tableCells marker (row table) = .ok ((entriesOfAll table).map (cell marker)) := by
  rw [tableCells, cellsOfAll_eq_map]

/-- Cells that have been read already are not read again, whatever the marker. -/
theorem tableCells_known (marker : String) (cells : List Cell) :
    tableCells marker (row (cells.map known)) = .ok cells := by
  have hknown : entriesOfAll (cells.map known) = cells.map known := by
    apply entriesOfAll_of_noRows
    intro entry hentry
    obtain ⟨cell, -, rfl⟩ := List.mem_map.mp hentry
    rfl
  rw [tableCells_row, hknown, List.map_map]
  exact congrArg Except.ok (List.map_id cells)

theorem tableCells_of_regrouped (marker : String) {table other : List RawCell}
    (h : Regrouped table other) :
    tableCells marker (row table) = tableCells marker (row other) := by
  rw [tableCells_row, tableCells_row, regrouped_iff.mp h]

/-- **Reading a table**: the cells of a table are those of its entries in their order, none of
    which is a row, so the list of its entries is read like the table itself.  Tables that are
    grouped differently have the same cells, and the search over them has the same outcome, be it a
    report or a fault.  The cells of two tables one after the other are the cells of the first and
    then those of the second.  Cells that have been read are left as they are when they are read
    once more, whatever the marker is then. -/
theorem reads_entries_in_order (marker : String) (table : List RawCell) :
    (tableCells marker (row table) = .ok ((entriesOfAll table).map (cell marker)) ∧
      (∀ entry ∈ entriesOfAll table, entry.isRow = false) ∧
      tableCells marker (row (entriesOfAll table)) = tableCells marker (row table)) ∧
    (∀ other : List RawCell, Regrouped table other →
      tableCells marker (row other) = tableCells marker (row table) ∧
      (Table.ofRaw marker (row other)).bind Table.search =
        (Table.ofRaw marker (row table)).bind Table.search) ∧
    (∀ other : List RawCell, ∃ cells cells',
      tableCells marker (row table) = .ok cells ∧ tableCells marker (row other) = .ok cells' ∧
        tableCells marker (row (table ++ other)) = .ok (cells ++ cells')) ∧
    ∃ cells, tableCells marker (row table) = .ok cells ∧
      ∀ marker' : String, tableCells marker' (row (cells.map known)) = .ok cells := by
  refine ⟨⟨tableCells_row marker table, fun entry => isRow_of_mem_entriesOfAll table, ?_⟩, ?_, ?_,
    _, tableCells_row marker table, fun marker' => tableCells_known marker' _⟩
  · exact (tableCells_of_regrouped marker (regrouped_entriesOfAll table)).symm
  · intro other h
    have hcells := tableCells_of_regrouped marker h
    refine ⟨hcells.symm, ?_⟩
    rw [Table.ofRaw, Table.ofRaw, hcells]
  · intro other
    refine ⟨_, _, tableCells_row marker table, tableCells_row marker other, ?_⟩
    rw [tableCells_row, entriesOfAll_append, List.map_append]

/-- The same four entries as two rows and as one row beside an empty one.  The literal that was
    read beside the marker `-` stays a literal beside the marker `A`, and the free cell stays
    free. -/
theorem reads_entries_in_order_regrouped :
    Regrouped [row [text "A", text "-"], row [known .dontCare, known (.literal "-")]]
        [text "A", row [], row [text "-", known .dontCare, known (.literal "-")]] ∧
      tableCells "-" (row [text "A", row [], row [text "-", known .dontCare,
          known (.literal "-")]]) =
        tableCells "-" (row [row [text "A", text "-"],
          row [known .dontCare, known (.literal "-")]]) ∧
      tableCells "-" (row [row [text "A", text "-"], row [known .dontCare, known (.literal "-")]]) =
        .ok [.literal "A", .dontCare, .dontCare, .literal "-"] ∧
      tableCells "A" (row ([.literal "A", .dontCare, .dontCare, .literal "-"].map known)) =
        .ok [.literal "A", .dontCare, .dontCare, .literal "-"] := by
  have hregrouped : Regrouped
      [row [text "A", text "-"], row [known .dontCare, known (.literal "-")]]
      [text "A", row [], row [text "-", known .dontCare, known (.literal "-")]] :=
    regrouped_iff.mpr (by simp [entriesOfAll, entries])
  obtain ⟨⟨hread, -⟩, hothers, -, cells, hcells, hagain⟩ := reads_entries_in_order "-"
    [row [text "A", text "-"], row [known .dontCare, known (.literal "-")]]
  have hexact : tableCells "-"
      (row [row [text "A", text "-"], row [known .dontCare, known (.literal "-")]]) =
      .ok [.literal "A", .dontCare, .dontCare, .literal "-"] := by
    rw [hread]
    simp [entriesOfAll, entries, cell, Cell.ofText, asText]
  obtain rfl := Except.ok.inj (hcells.symm.trans hexact)
  exact ⟨hregrouped, (hothers _ hregrouped).1, hexact, hagain "A"⟩

end RawCell

end Dichotomy
