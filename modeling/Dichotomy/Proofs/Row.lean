import Dichotomy.Position
import Dichotomy.Assignment
import Mathlib.Data.List.Nodup
import Mathlib.Tactic.Ring

/-!
# Rows and assignments

Row numbers and assignments of `n` inputs are two names for the same thing: `Assignment.ofRow`
and `Assignment.row` undo each other.  The value of an input and the values along an order of
inputs are read off an assignment here, and an assignment can be changed at one input.  Inputs that
are different (`DistinctInputs`) can be changed one after the other.

## Main statements

- `Assignment.ofRow_row`, `Assignment.row_ofRow`: rows and assignments correspond.
- `Assignment.exists_along`: every list of values lies along some assignment.
-/

namespace Dichotomy

/-! ## Number of rows -/

@[simp] theorem rowCount_zero : rowCount 0 = 1 := rfl

theorem rowCount_succ (n : Nat) : rowCount (n + 1) = 2 * rowCount n := by
  show 2 ^ (n + 1) = 2 * 2 ^ n
  rw [Nat.pow_succ, Nat.mul_comm]

theorem rowCount_pos (n : Nat) : 0 < rowCount n := Nat.two_pow_pos n

namespace Assignment

/-! ## Row numbers -/

@[simp] theorem row_nil : row [] = 0 := rfl

theorem row_cons_true (a : Assignment) : row (true :: a) = row a := by
  simp [row]

theorem row_cons_false (a : Assignment) : row (false :: a) = rowCount a.length + row a := by
  simp [row]

/-- The row of an assignment lies in the table. -/
theorem row_lt (a : Assignment) : a.row < rowCount a.length := by
  induction a with
  | nil => exact rowCount_pos 0
  | cons value a ih =>
    -- The first input chooses one of the two halves of the table.
    rw [List.length_cons, rowCount_succ]
    cases value with
    | true => rw [row_cons_true]; omega
    | false => rw [row_cons_false]; omega

/-- Only the lowest places of a row number count. -/
theorem ofRow_add_mul (n : Nat) (row k : Int) :
    ofRow n (row + k * rowCount n) = ofRow n row := by
  induction n generalizing k with
  | zero => rfl
  | succ n ih =>
    -- A whole table is two halves, so the first place stays as it is.
    have hpos : (rowCount n : Int) ≠ 0 := by have := rowCount_pos n; omega
    have hshift : row + k * (rowCount (n + 1) : Nat) = row + (2 * k) * (rowCount n : Nat) := by
      rw [rowCount_succ]; push_cast; ring
    have hbit : (row + (2 * k) * (rowCount n : Nat)) / (rowCount n : Nat) % 2
        = row / (rowCount n : Nat) % 2 := by
      rw [Int.add_mul_ediv_right _ _ hpos]; omega
    rw [hshift, ofRow, ofRow, hbit, ih]

/-- An assignment is read back from its row. -/
@[simp] theorem ofRow_row (a : Assignment) : ofRow a.length a.row = a := by
  induction a with
  | nil => rfl
  | cons value a ih =>
    have hlt := row_lt a
    have hpos := rowCount_pos a.length
    cases value with
    | true =>
      have hbit : ((row a : Nat) : Int) / (rowCount a.length : Nat) = 0 :=
        Int.ediv_eq_zero_of_lt (by omega) (by omega)
      rw [List.length_cons, row_cons_true, ofRow, ih, hbit]
      rfl
    | false =>
      -- A false first input adds one half, which the rest of the row does not see.
      have hbit : ((rowCount a.length + row a : Nat) : Int) / (rowCount a.length : Nat) = 1 := by
        rw [← Int.natCast_ediv, Nat.add_div_left _ hpos, Nat.div_eq_of_lt hlt]
        rfl
      have hrest : ofRow a.length ((rowCount a.length + row a : Nat) : Int) = a := by
        have hshift := ofRow_add_mul a.length (row a) 1
        rw [ih, Int.one_mul, Int.add_comm] at hshift
        exact_mod_cast hshift
      rw [List.length_cons, row_cons_false, ofRow, hrest, hbit]
      rfl

theorem ofRow_row_of_length {n : Nat} {a : Assignment} (h : a.length = n) : ofRow n a.row = a := by
  subst h
  exact ofRow_row a

theorem row_lt_of_length {n : Nat} {a : Assignment} (h : a.length = n) : a.row < rowCount n := by
  subst h
  exact row_lt a

/-- In the first half of the rows the first input is true. -/
theorem ofRow_succ_of_lt {n row : Nat} (h : row < rowCount n) :
    ofRow (n + 1) row = true :: ofRow n row := by
  have hbit : (row : Int) / (rowCount n : Nat) = 0 :=
    Int.ediv_eq_zero_of_lt (by omega) (by omega)
  rw [ofRow, hbit]
  rfl

/-- In the second half it is false, and the others are numbered from the start again. -/
theorem ofRow_succ_add {n rest : Nat} (h : rest < rowCount n) :
    ofRow (n + 1) ((rowCount n + rest : Nat) : Int) = false :: ofRow n rest := by
  have hbit : ((rowCount n + rest : Nat) : Int) / (rowCount n : Nat) = 1 := by
    rw [← Int.natCast_ediv, Nat.add_div_left _ (rowCount_pos n), Nat.div_eq_of_lt h]
    rfl
  have hshift : ofRow n ((rowCount n + rest : Nat) : Int) = ofRow n rest := by
    have := ofRow_add_mul n rest 1
    rw [Int.one_mul, Int.add_comm] at this
    exact_mod_cast this
  rw [ofRow, hbit, hshift]
  rfl

/-- A row of the table is read back from its assignment. -/
theorem row_ofRow {n row : Nat} (h : row < rowCount n) : (ofRow n row).row = row := by
  induction n generalizing row with
  | zero =>
    have : row = 0 := by rw [rowCount_zero] at h; omega
    subst this; rfl
  | succ n ih =>
    rw [rowCount_succ] at h
    -- The first place says in which half of the table the row lies.
    by_cases hhalf : row < rowCount n
    · rw [ofRow_succ_of_lt hhalf, row_cons_true, ih hhalf]
    · obtain ⟨rest, rfl⟩ := Nat.exists_eq_add_of_le (Nat.le_of_not_lt hhalf)
      have hrest : rest < rowCount n := by omega
      rw [ofRow_succ_add hrest, row_cons_false, length_ofRow, ih hrest]

/-- Different assignments of the same inputs stand in different rows. -/
theorem row_inj {n : Nat} {a b : Assignment} (ha : a.length = n) (hb : b.length = n)
    (h : a.row = b.row) : a = b := by
  rw [← ofRow_row_of_length ha, h, ofRow_row_of_length hb]

theorem mem_all {n : Nat} {a : Assignment} : a ∈ all n ↔ a.length = n := by
  constructor
  · intro h
    obtain ⟨row, -, rfl⟩ := List.mem_map.mp h
    exact length_ofRow n row
  · rintro rfl
    exact List.mem_map.mpr ⟨a.row, List.mem_range.mpr (row_lt a), ofRow_row a⟩

/-- All assignments: first those where the first input is true, then those where it is false. -/
theorem all_succ (n : Nat) :
    all (n + 1) = (all n).map (true :: ·) ++ (all n).map (false :: ·) := by
  have htwo : rowCount (n + 1) = rowCount n + rowCount n := by rw [rowCount_succ]; omega
  rw [all, htwo, List.range_add, List.map_append, List.map_map, all, List.map_map, List.map_map]
  congr 1
  · exact List.map_congr_left fun row hrow => ofRow_succ_of_lt (List.mem_range.mp hrow)
  · exact List.map_congr_left fun row hrow => ofRow_succ_add (List.mem_range.mp hrow)

/-! ## Values of inputs -/

/-- The value of an input; inputs beyond the last one count as true. -/
def value (a : Assignment) (var : Int) : Bool := a.getD var.toNat true

/-- The values of several inputs, in their order. -/
def along (a : Assignment) (order : List Int) : List Bool := order.map a.value

/-- The assignment with the value of one input changed. -/
def update (a : Assignment) (var : Int) (value : Bool) : Assignment := a.set var.toNat value

@[simp] theorem along_nil (a : Assignment) : a.along [] = [] := rfl

@[simp] theorem along_cons (a : Assignment) (var : Int) (order : List Int) :
    a.along (var :: order) = a.value var :: a.along order := rfl

theorem along_append (a : Assignment) (first second : List Int) :
    a.along (first ++ second) = a.along first ++ a.along second := List.map_append

@[simp] theorem length_along (a : Assignment) (order : List Int) :
    (a.along order).length = order.length := List.length_map _

@[simp] theorem length_update (a : Assignment) (var : Int) (value : Bool) :
    (a.update var value).length = a.length := List.length_set

end Assignment

theorem mem_inputNumbers {n : Nat} {var : Int} :
    var ∈ inputNumbers n ↔ 0 ≤ var ∧ var < n := by
  simp only [inputNumbers, List.mem_map, List.mem_range, Int.toNat_natCast]
  constructor
  · rintro ⟨i, hi, rfl⟩
    omega
  · rintro ⟨h0, hn⟩
    exact ⟨var.toNat, by omega, by omega⟩

theorem nodup_inputNumbers (n : Int) : (inputNumbers n).Nodup :=
  List.Nodup.map (fun _ _ h => Int.ofNat.inj h) List.nodup_range

@[simp] theorem length_inputNumbers (n : Int) : (inputNumbers n).length = n.toNat := by
  simp [inputNumbers]

/-- An order of some of the `n` inputs, in which each of them comes once at most. -/
structure DistinctInputs (n : Nat) (order : List Int) : Prop where
  nodup : order.Nodup
  mem : ∀ var ∈ order, var ∈ inputNumbers n

namespace DistinctInputs

variable {n : Nat} {var : Int} {order : List Int}

theorem of_perm (h : order.Perm (inputNumbers n)) : DistinctInputs n order where
  nodup := h.nodup_iff.mpr (nodup_inputNumbers n)
  mem _ hvar := h.mem_iff.mp hvar

theorem nonneg (h : DistinctInputs n order) (hvar : var ∈ order) : 0 ≤ var :=
  (mem_inputNumbers.mp (h.mem var hvar)).1

theorem head (h : DistinctInputs n (var :: order)) : var ∈ inputNumbers n :=
  h.mem var List.mem_cons_self

theorem notMem (h : DistinctInputs n (var :: order)) : var ∉ order :=
  (List.nodup_cons.mp h.nodup).1

theorem tail (h : DistinctInputs n (var :: order)) : DistinctInputs n order where
  nodup := (List.nodup_cons.mp h.nodup).2
  mem other hother := h.mem other (List.mem_cons_of_mem _ hother)

end DistinctInputs

namespace Assignment

/-- Looking up an input of an assignment succeeds and gives its value. -/
theorem entryAt?_eq {a : Assignment} {var : Int} (h : var ∈ inputNumbers a.length) :
    entryAt? a var = some (a.value var) := by
  obtain ⟨h0, hn⟩ := mem_inputNumbers.mp h
  have hlt : var.toNat < a.length := by omega
  simp [entryAt?, h0, value, List.getElem?_eq_getElem hlt, List.getD_eq_getElem?_getD]

theorem atPosition_eq {a : Assignment} {var : Int} (h : var ∈ inputNumbers a.length) :
    atPosition a var = .ok (a.value var) := by
  rw [atPosition, entryAt?_eq h]

theorem value_update_self {a : Assignment} {var : Int} (value : Bool)
    (h : var ∈ inputNumbers a.length) : (a.update var value).value var = value := by
  obtain ⟨h0, hn⟩ := mem_inputNumbers.mp h
  have hlt : var.toNat < a.length := by omega
  simp [update, Assignment.value, List.getD_eq_getElem?_getD, hlt]

theorem value_update_of_ne {a : Assignment} {var other : Int} (value : Bool) (hvar : 0 ≤ var)
    (hother : 0 ≤ other) (hne : var ≠ other) : (a.update var value).value other = a.value other := by
  have hnat : var.toNat ≠ other.toNat := by omega
  simp [update, Assignment.value, List.getD_eq_getElem?_getD, List.getElem?_set_ne hnat]

/-- A change at an input is not seen along an order that leaves the input out. -/
theorem along_update {a : Assignment} {var : Int} (value : Bool) {order : List Int}
    (hvar : 0 ≤ var) (horder : ∀ x ∈ order, 0 ≤ x) (hnot : var ∉ order) :
    (a.update var value).along order = a.along order := by
  refine List.map_congr_left fun other hmem => ?_
  have hne : var ≠ other := fun h => hnot (h ▸ hmem)
  exact value_update_of_ne value hvar (horder other hmem) hne

/-- A change at the first input of an order decides the first value along it. -/
theorem along_update_cons {a : Assignment} {var : Int} {order : List Int} (value : Bool)
    (hinputs : DistinctInputs a.length (var :: order)) :
    (a.update var value).along (var :: order) = value :: a.along order := by
  rw [along_cons, value_update_self value hinputs.head,
    along_update value (hinputs.nonneg List.mem_cons_self) (fun _ hx => hinputs.tail.nonneg hx)
      hinputs.notMem]

/-- Any values can be given to different inputs. -/
theorem exists_along {n : Nat} {order : List Int} (hinputs : DistinctInputs n order)
    {values : List Bool} (hlen : values.length = order.length) :
    ∃ a : Assignment, a.length = n ∧ a.along order = values := by
  induction order generalizing values with
  | nil =>
    obtain rfl : values = [] := List.length_eq_zero_iff.mp hlen
    exact ⟨List.replicate n true, List.length_replicate, rfl⟩
  | cons var order ih =>
    cases values with
    | nil => cases hlen
    | cons value values =>
      -- The other values are given first, and the change for this one leaves them alone.
      obtain ⟨a, rfl, rfl⟩ := ih hinputs.tail (Nat.succ.inj hlen)
      exact ⟨a.update var value, length_update .., along_update_cons value hinputs⟩

theorem exists_along_of_perm {n : Nat} {order : List Int} (h : order.Perm (inputNumbers n))
    {values : List Bool} (hlen : values.length = order.length) :
    ∃ a : Assignment, a.length = n ∧ a.along order = values :=
  exists_along (.of_perm h) hlen

end Assignment

end Dichotomy
