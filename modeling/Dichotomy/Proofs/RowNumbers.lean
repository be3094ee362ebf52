import Dichotomy.Proofs.Row
import Mathlib.Data.Int.Bitwise
import Mathlib.Data.Set.List

/-!
# Row numbers in binary

A row number is read place by place: the value of input `j` of `n` stands at the binary place
`n - 1 - j`, which is `0` if the input is true and `1` if it is false.  Places beyond the lowest `n`
are not read, so every integer names a row, also a negative one, whose places go on with ones
without end.  Written down place by place, an assignment gives its row number back.

The complete decision table writes the assignments down in the order of their row numbers.

## Main statements

- `Assignment.getElem?_ofRow`: reading places.
- `Assignment.setPlaces_zero`: setting places.
- `Assignment.row_ofRow_eq_emod`: a row number is taken modulo the number of rows.
- `rows_correspond`: rows, assignments and the lines of a decision table are the same.
-/

namespace Dichotomy

namespace Assignment

/-! ## Reading places -/

/-- A binary place is a remainder after division, for negative numbers as well. -/
theorem testBit_eq_decide (row : Int) (place : Nat) :
    row.testBit place = decide (row / (rowCount place : Nat) % 2 = 1) := by
  have hpos := rowCount_pos place
  cases row with
  | ofNat m =>
    have hbit : m.testBit place = decide (m / rowCount place % 2 = 1) :=
      Nat.testBit_eq_decide_div_mod_eq
    rw [Int.testBit, hbit, decide_eq_decide]
    simp only [Int.ofNat_eq_natCast]
    omega
  | negSucc m =>
    -- The places of a negative number are those of its complement, turned over.
    have hbit : m.testBit place = decide (m / rowCount place % 2 = 1) :=
      Nat.testBit_eq_decide_div_mod_eq
    have hdiv : Int.negSucc m / ((rowCount place : Nat) : Int) =
        -((m / rowCount place : Nat) + 1 : Int) := by
      rw [Int.negSucc_ediv _ (by omega)]
      rfl
    rw [Int.testBit, hbit, hdiv, ← decide_not, decide_eq_decide]
    omega

/-- An input is true if its place is not set. -/
theorem getElem?_ofRow {n j : Nat} (row : Int) (h : j < n) :
    (ofRow n row)[j]? = some (!row.testBit (n - 1 - j)) := by
  induction n generalizing j with
  | zero => cases h
  | succ n ih =>
    cases j with
    | zero =>
      rw [ofRow, List.getElem?_cons_zero, testBit_eq_decide, ← decide_not]
      simp only [Nat.add_sub_cancel, Nat.sub_zero, Option.some.injEq, decide_eq_decide]
      omega
    | succ j =>
      rw [ofRow, List.getElem?_cons_succ, ih (by omega)]
      congr 3
      omega

/-! ## Setting places -/

/-- Sets the places of the false inputs in a number, the place of the last input being `0`. -/
def setPlaces (index : Nat) : Assignment → Nat
  | [] => index
  | value :: rest => setPlaces (if value then index else index ||| 1 <<< rest.length) rest

/-- Places above those of the assignment stay as they are. -/
theorem setPlaces_mul (a : Assignment) (high : Nat) :
    setPlaces (rowCount a.length * high) a = rowCount a.length * high + a.row := by
  induction a generalizing high with
  | nil => rfl
  | cons value a ih =>
    have hlength : rowCount (value :: a).length * high = rowCount a.length * (2 * high) := by
      rw [List.length_cons, rowCount_succ]
      ring
    cases value with
    | true => rw [hlength, setPlaces, if_pos rfl, ih, row_cons_true]
    | false =>
      -- The place of the first input is below all that are set already, so setting it adds it.
      have hlt : rowCount a.length < rowCount (false :: a).length := by
        have hpos := rowCount_pos a.length
        rw [List.length_cons, rowCount_succ]
        omega
      have hset : rowCount (false :: a).length * high ||| 1 <<< a.length =
          rowCount (false :: a).length * high + rowCount a.length := by
        rw [Nat.shiftLeft_eq, Nat.one_mul]
        exact (Nat.two_pow_add_eq_or_of_lt hlt high).symm
      have hnext : rowCount (false :: a).length * high + rowCount a.length =
          rowCount a.length * (2 * high + 1) := by
        rw [hlength]
        ring
      rw [setPlaces, if_neg Bool.false_ne_true, hset, hnext, ih, ← hnext, row_cons_false,
        Nat.add_assoc]

/-- Setting the places of the false inputs gives the row number. -/
theorem setPlaces_zero (a : Assignment) : setPlaces 0 a = a.row := by
  have h := setPlaces_mul a 0
  rwa [Nat.mul_zero, Nat.zero_add] at h

/-! ## Any integer as a row number -/

/-- **A row number is taken modulo the number of rows.** -/
theorem row_ofRow_eq_emod (n : Nat) (row : Int) :
    ((ofRow n row).row : Int) = row % (rowCount n : Nat) := by
  have hpos : (0 : Int) < (rowCount n : Nat) := by exact_mod_cast rowCount_pos n
  obtain ⟨rest, hrest⟩ := Int.eq_ofNat_of_zero_le (Int.emod_nonneg row hpos.ne')
  have hlt : rest < rowCount n := by
    have := Int.emod_lt_of_pos row hpos
    omega
  -- Whole tables are left out, and what is left is the number of a row.
  have hsplit : row = rest + row / (rowCount n : Nat) * (rowCount n : Nat) := by
    rw [← hrest]
    exact (Int.emod_add_ediv_mul row _).symm
  rw [hrest, hsplit, ofRow_add_mul, row_ofRow hlt]

/-- The row of three inputs that `-2` names is row `6`. -/
example : (ofRow 3 (-2)).row = 6 := by decide

theorem nodup_all (n : Nat) : (all n).Nodup := by
  apply List.Nodup.map_on _ List.nodup_range
  intro row hrow row' hrow' h
  rw [← row_ofRow (List.mem_range.mp hrow), h, row_ofRow (List.mem_range.mp hrow')]

end Assignment

/-! ## The complete decision table -/

section Combinations

variable {α : Type} {n : Nat} {whenTrue whenFalse : α}

theorem length_combinations : (combinations n whenTrue whenFalse).length = rowCount n := by
  simp [combinations, Assignment.all]

theorem getElem?_combinations {row : Nat} (h : row < rowCount n) :
    (combinations n whenTrue whenFalse)[row]? =
      some ((Assignment.ofRow n row).map fun value => if value then whenTrue else whenFalse) := by
  simp [combinations, Assignment.all, h]

/-- The line of an assignment stands in its row. -/
theorem getElem?_combinations_row {a : Assignment} (h : a.length = n) :
    (combinations n whenTrue whenFalse)[a.row]? =
      some (a.map fun value => if value then whenTrue else whenFalse) := by
  rw [getElem?_combinations (Assignment.row_lt_of_length h), Assignment.ofRow_row_of_length h]

theorem nodup_combinations (hne : whenTrue ≠ whenFalse) :
    (combinations n whenTrue whenFalse).Nodup := by
  apply (Assignment.nodup_all n).map
  apply List.map_injective_iff.mpr
  intro value value' h
  cases value <;> cases value' <;> simp_all

/-- The lines are all that can be written with the two marks. -/
theorem mem_combinations {marks : List α} :
    marks ∈ combinations n whenTrue whenFalse ↔
      marks.length = n ∧ ∀ mark ∈ marks, mark = whenTrue ∨ mark = whenFalse := by
  constructor
  · intro h
    obtain ⟨a, ha, rfl⟩ := List.mem_map.mp h
    refine ⟨by simpa using Assignment.mem_all.mp ha, ?_⟩
    intro mark hmark
    obtain ⟨value, -, rfl⟩ := List.mem_map.mp hmark
    cases value <;> simp
  · rintro ⟨hlength, hmarks⟩
    -- Each mark is that of a truth value, so the line is that of an assignment.
    have hrange : marks ∈ Set.range
        (List.map fun value : Bool => if value then whenTrue else whenFalse) := by
      rw [Set.range_list_map]
      intro mark hmark
      rcases hmarks mark hmark with rfl | rfl
      · exact ⟨true, rfl⟩
      · exact ⟨false, rfl⟩
    obtain ⟨a, rfl⟩ := hrange
    apply List.mem_map_of_mem
    apply Assignment.mem_all.mpr
    simpa using hlength

/-- The first half of the lines are those in which the first input is true. -/
theorem head?_combinations (hne : whenTrue ≠ whenFalse) {row : Nat} {marks : List α}
    (h : (combinations (n + 1 : Nat) whenTrue whenFalse)[row]? = some marks) :
    marks.head? = some whenTrue ↔ row < rowCount n := by
  have hlt : row < rowCount (n + 1) := by
    obtain ⟨hlt, -⟩ := List.getElem?_eq_some_iff.mp h
    rwa [length_combinations] at hlt
  rw [getElem?_combinations hlt, Option.some.injEq] at h
  subst h
  rw [rowCount_succ] at hlt
  by_cases hhalf : row < rowCount n
  · rw [Assignment.ofRow_succ_of_lt hhalf]
    simp [hhalf]
  · obtain ⟨rest, rfl⟩ := Nat.exists_eq_add_of_le (Nat.le_of_not_lt hhalf)
    have hrest : rest < rowCount n := by omega
    rw [Assignment.ofRow_succ_add hrest]
    simp [hne.symm]

end Combinations

/-- **Rows and assignments correspond.**  A row number is read and written place by place.  The
    assignment of any integer has that integer's remainder as its row number, and the row number
    of any assignment lies in the table and gives the assignment back.  With different marks for
    true and false, the lines of the complete decision table are all lines of such marks, none of
    them twice; each stands in the row of its assignment, and those that begin with the mark for
    true are the first half. -/
theorem rows_correspond :
    (∀ (n : Nat) (row : Int),
      (∀ j < n, (Assignment.ofRow n row)[j]? = some (!row.testBit (n - 1 - j))) ∧
        ((Assignment.ofRow n row).row : Int) = row % (rowCount n : Nat)) ∧
    (∀ a : Assignment, a.setPlaces 0 = a.row ∧ Assignment.ofRow a.length a.row = a ∧
      a.row < rowCount a.length) ∧
    ∀ (α : Type) (n : Nat) (whenTrue whenFalse : α), 1 ≤ n → whenTrue ≠ whenFalse →
      (combinations n whenTrue whenFalse).length = rowCount n ∧
      (combinations n whenTrue whenFalse).Nodup ∧
      (∀ marks : List α, marks ∈ combinations n whenTrue whenFalse ↔
        marks.length = n ∧ ∀ mark ∈ marks, mark = whenTrue ∨ mark = whenFalse) ∧
      (∀ a : Assignment, a.length = n → (combinations n whenTrue whenFalse)[a.row]? =
        some (a.map fun value => if value then whenTrue else whenFalse)) ∧
      ∀ (row : Nat) (marks : List α), (combinations n whenTrue whenFalse)[row]? = some marks →
        (marks.head? = some whenTrue ↔ row < rowCount (n - 1)) := by
  refine ⟨fun n row => ⟨fun j hj => Assignment.getElem?_ofRow row hj,
    Assignment.row_ofRow_eq_emod n row⟩, fun a => ⟨a.setPlaces_zero, a.ofRow_row, a.row_lt⟩, ?_⟩
  intro α n whenTrue whenFalse hn hne
  refine ⟨length_combinations, nodup_combinations hne, fun marks => mem_combinations,
    fun a ha => getElem?_combinations_row ha, ?_⟩
  intro row marks hmarks
  cases n with
  | zero => cases hn
  | succ n => exact head?_combinations hne hmarks

/-- The third of the four lines over two inputs is the first one of the second half. -/
theorem rows_correspond_two :
    (1 ≤ 2 ∧ 'T' ≠ 'F') ∧ (combinations 2 'T' 'F').length = 4 ∧ (combinations 2 'T' 'F').Nodup ∧
      ['F', 'T'] ∈ combinations 2 'T' 'F' ∧ ['F', '?'] ∉ combinations 2 'T' 'F' ∧
      (combinations 2 'T' 'F')[Assignment.row [false, true]]? = some ['F', 'T'] ∧
      (['F', 'T'].head? = some 'T' ↔ 2 < rowCount 1) := by
  obtain ⟨hlength, hnodup, hmem, hlines, hhalf⟩ :=
    rows_correspond.2.2 Char 2 'T' 'F' (by decide) (by decide)
  have hline := hlines [false, true] rfl
  exact ⟨⟨by decide, by decide⟩, hlength, hnodup, (hmem _).mpr (by simp),
    fun h => absurd ((hmem _).mp h) (by simp), hline, hhalf 2 ['F', 'T'] hline⟩

end Dichotomy
