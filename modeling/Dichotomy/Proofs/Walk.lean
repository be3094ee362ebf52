import Dichotomy.Proofs.Reduced

/-!
# What a built diagram answers

The diagram built for an order answers an assignment by the cell that is left when the rows of
the table are narrowed down, one input of the order after the other: the rows that agree with the
assignment are kept, unless all of them are free and the others demand something.

## Main statements

- `Table.eval_narrow`: one step keeps the half of the rows whose side answers.
- `Table.eval_ofCells_narrow`: the walk ends in one row, whose cell is the answer of the tree.
- `Table.build_answers_walk`: the same for built diagrams; demands are always met, so any two
  orders agree on them.
-/

namespace Dichotomy

/-! ## Answers of a reduced decision -/

namespace Diagram

variable {ι : Type}

/-- A free diagram answers everything with the free cell. -/
theorem eval_of_isFree {d : Diagram ι} (h : d.isFree = true) (a : Assignment) :
    d.eval a = .ok .dontCare := by
  cases d with
  | leaf mark cell =>
    cases cell with
    | literal text => cases h
    | dontCare => rfl
  | branch => cases h

/-- A reduced decision is answered by the side the input chooses, unless that side is free and
    the other one is not. -/
theorem eval_reducedBranch {mark : ι} {var : Int} {high low : Diagram ι} {a : Assignment}
    {value : Bool} (h : atPosition a var = .ok value) :
    (reducedBranch mark var high low).eval a =
      if (cond value high low).isFree && !(cond value low high).isFree then
        (cond value low high).eval a
      else (cond value high low).eval a := by
  rw [reducedBranch, Reduction.of]
  cases hhigh : high.isFree <;> cases hlow : low.isFree
  · cases hsame : high.sameShape low
    · cases value <;> simp [eval, h, hhigh, hlow]
    · -- Equal sides answer alike, so it does not matter which one is kept.
      have heval : high.eval a = low.eval a := by
        rw [← eval_shape, Diagram.sameShape_iff.mp hsame, eval_shape]
      cases value <;> simp [heval, hhigh, hlow]
  · cases value <;> simp [hhigh, hlow]
  · cases value <;> simp [hhigh, hlow]
  · cases value <;> simp [hhigh, hlow, eval_of_isFree hhigh, eval_of_isFree hlow]

end Diagram

/-! ## The walk -/

namespace Table

/-- Whether all of some rows leave the output free. -/
def allFree (table : Table) (rows : List Nat) : Bool :=
  rows.all fun row => (table.cell row).isFree

/-- The rows among some rows in which an input has a given value. -/
def half (table : Table) (rows : List Nat) (var : Int) (value : Bool) : List Nat :=
  rows.filter fun row => (Assignment.ofRow table.inputs row).value var == value

/-- One step of the walk: the half that agrees with the assignment is kept, unless all of it is
    free while the other half holds a literal. -/
def narrow (table : Table) (a : Assignment) (rows : List Nat) (var : Int) : List Nat :=
  let agreeing := table.half rows var (a.value var)
  let other := table.half rows var (!a.value var)
  if table.allFree agreeing && !table.allFree other then other else agreeing

/-- The rows that are left when all rows are narrowed down along an order. -/
def walk (table : Table) (order : List Int) (a : Assignment) : List Nat :=
  order.foldl (table.narrow a) (List.range (rowCount table.inputs))

/-- The rows reached by some choices: those whose values along `done` are `values`. -/
structure Reached (table : Table) (done : List Int) (values : List Bool) (rows : List Nat) :
    Prop where
  nodup : rows.Nodup
  mem_iff : ∀ row, row ∈ rows ↔
    row < rowCount table.inputs ∧ (Assignment.ofRow table.inputs row).along done = values

variable {table : Table} {done rest : List Int} {values : List Bool} {rows : List Nat}

theorem reached_range (table : Table) :
    table.Reached [] [] (List.range (rowCount table.inputs)) where
  nodup := List.nodup_range
  mem_iff row := by simp

/-- Taking a half of the reached rows chooses one more value. -/
theorem Reached.half (h : table.Reached done values rows) (hlen : values.length = done.length)
    (var : Int) (value : Bool) :
    table.Reached (done ++ [var]) (values ++ [value]) (table.half rows var value) where
  nodup := h.nodup.filter _
  mem_iff row := by
    have hlast : (Assignment.ofRow table.inputs row).along (done ++ [var]) = values ++ [value] ↔
        (Assignment.ofRow table.inputs row).along done = values ∧
          (Assignment.ofRow table.inputs row).value var = value := by
      rw [Assignment.along_append, Assignment.along_cons, Assignment.along_nil]
      constructor
      · intro happend
        obtain ⟨hdone, hlast⟩ := List.append_inj happend (by rw [Assignment.length_along, hlen])
        exact ⟨hdone, List.head_eq_of_cons_eq hlast⟩
      · rintro ⟨hdone, hlast⟩
        rw [hdone, hlast]
    rw [Table.half, List.mem_filter, h.mem_iff, hlast, beq_iff_eq, and_assoc]

/-- The reached rows are all free exactly when the reduced tree of their cells is free. -/
theorem Reached.allFree_eq (h : table.Reached done values rows)
    (horder : (done ++ rest).Perm (inputNumbers table.inputs))
    (hlen : values.length = done.length) :
    table.allFree rows =
      (Tree.ofCells rest fun more => table.cellAlong (done ++ rest) (values ++ more)).isFree := by
  rw [Bool.eq_iff_iff, Tree.isFree_ofCells, allFree, List.all_eq_true]
  constructor
  · intro hfree more hmore
    -- Any values for the rest of the order belong to one of the reached rows.
    have hlength : (values ++ more).length = (done ++ rest).length := by simp [hlen, hmore]
    obtain ⟨a, ha, halong⟩ := Assignment.exists_along_of_perm horder hlength
    have hdone : a.along done = values := by
      rw [Assignment.along_append] at halong
      exact (List.append_inj halong (by rw [Assignment.length_along, hlen])).1
    rw [← halong, cellAlong_along horder ha]
    refine hfree _ ((h.mem_iff _).mpr ⟨Assignment.row_lt_of_length ha, ?_⟩)
    rw [Assignment.ofRow_row_of_length ha, hdone]
  · intro hfree row hrow
    obtain ⟨hlt, hdone⟩ := (h.mem_iff row).mp hrow
    have hcell := hfree ((Assignment.ofRow table.inputs row).along rest) (by simp)
    rw [← hdone, ← Assignment.along_append, cellAlong_along horder (by simp),
      Assignment.row_ofRow hlt] at hcell
    exact hcell

/-- **The step of the walk**: narrowing keeps the half of the reached rows whose side answers for
    the reduced decision. -/
theorem eval_narrow {var : Int} {a : Assignment} (ha : a.length = table.inputs)
    (h : table.Reached done values rows)
    (horder : (done ++ var :: rest).Perm (inputNumbers table.inputs))
    (hlen : values.length = done.length) :
    ∃ value, table.Reached (done ++ [var]) (values ++ [value]) (table.narrow a rows var) ∧
      (Tree.ofCells (var :: rest) fun more =>
          table.cellAlong (done ++ var :: rest) (values ++ more)).eval a =
        (Tree.ofCells rest fun more =>
          table.cellAlong (done ++ var :: rest) ((values ++ [value]) ++ more)).eval a := by
  have hvar : var ∈ inputNumbers a.length := by
    rw [ha]
    exact horder.mem_iff.mp (by simp)
  have hsplit : done ++ var :: rest = (done ++ [var]) ++ rest := by simp
  -- Each side of the decision is free exactly when its half of the rows is.
  have hside (value : Bool) : table.allFree (table.half rows var value) =
      (Tree.ofCells rest fun more =>
        table.cellAlong (done ++ var :: rest) ((values ++ [value]) ++ more)).isFree := by
    rw [hsplit]
    refine (h.half hlen var value).allFree_eq ?_ (by simp [hlen])
    rw [← hsplit]
    exact horder
  have htree : (Tree.ofCells (var :: rest) fun more =>
      table.cellAlong (done ++ var :: rest) (values ++ more)) =
      Diagram.reducedBranch () var
        (Tree.ofCells rest fun more =>
          table.cellAlong (done ++ var :: rest) ((values ++ [true]) ++ more))
        (Tree.ofCells rest fun more =>
          table.cellAlong (done ++ var :: rest) ((values ++ [false]) ++ more)) := by
    simp only [Tree.ofCells, List.append_assoc, List.singleton_append]
  rw [htree, Diagram.eval_reducedBranch (Assignment.atPosition_eq hvar)]
  cases hvalue : a.value var
  · simp only [cond_false, ← hside, narrow, hvalue, Bool.not_false]
    split
    · exact ⟨true, h.half hlen var true, rfl⟩
    · exact ⟨false, h.half hlen var false, rfl⟩
  · simp only [cond_true, ← hside, narrow, hvalue, Bool.not_true]
    split
    · exact ⟨false, h.half hlen var false, rfl⟩
    · exact ⟨true, h.half hlen var true, rfl⟩

/-- **The walk**: narrowing reached rows down along the rest of an order leaves one row, and the
    reduced tree of the reached cells answers with its cell. -/
theorem eval_ofCells_narrow {a : Assignment} (ha : a.length = table.inputs)
    (h : table.Reached done values rows)
    (horder : (done ++ rest).Perm (inputNumbers table.inputs))
    (hlen : values.length = done.length) :
    ∃ row < rowCount table.inputs, rest.foldl (table.narrow a) rows = [row] ∧
      (Tree.ofCells rest fun more => table.cellAlong (done ++ rest) (values ++ more)).eval a =
        .ok (table.cell row) := by
  induction rest generalizing done values rows with
  | nil =>
    rw [List.append_nil] at horder ⊢
    obtain ⟨b, hb, rfl⟩ := Assignment.exists_along_of_perm horder hlen
    refine ⟨b.row, Assignment.row_lt_of_length hb, ?_, ?_⟩
    · -- Along the whole order the values determine the assignment.
      refine List.perm_singleton.mp ((List.perm_ext_iff_of_nodup h.nodup
        (List.nodup_singleton _)).mpr fun row => ?_)
      rw [h.mem_iff, List.mem_singleton]
      constructor
      · rintro ⟨hlt, halong⟩
        rw [← Assignment.along_inj horder (Assignment.length_ofRow _ _) hb halong,
          Assignment.row_ofRow hlt]
      · rintro rfl
        exact ⟨Assignment.row_lt_of_length hb, by rw [Assignment.ofRow_row_of_length hb]⟩
    · rw [Tree.ofCells, Diagram.eval, List.append_nil, cellAlong_along horder hb]
  | cons var rest ih =>
    obtain ⟨value, hreached, heval⟩ := eval_narrow ha h horder hlen
    have hsplit : done ++ var :: rest = (done ++ [var]) ++ rest := by simp
    rw [heval, List.foldl_cons, hsplit]
    rw [hsplit] at horder
    exact ih hreached horder (by simp [hlen])

/-! ## Demands are met -/

/-- A row of a literal that agrees with the assignment is never given up. -/
theorem row_mem_narrow {a : Assignment} (ha : a.length = table.inputs)
    (hcell : (table.cell a.row).isFree = false) (hmem : a.row ∈ rows) (var : Int) :
    a.row ∈ table.narrow a rows var := by
  have hagree : a.row ∈ table.half rows var (a.value var) := by
    refine List.mem_filter.mpr ⟨hmem, ?_⟩
    rw [Assignment.ofRow_row_of_length ha, beq_self_eq_true]
  have hnot : table.allFree (table.half rows var (a.value var)) = false := by
    rw [allFree, List.all_eq_false]
    exact ⟨a.row, hagree, by rw [hcell]; exact Bool.false_ne_true⟩
  rw [narrow, hnot]
  exact hagree

theorem row_mem_walk {a : Assignment} (ha : a.length = table.inputs)
    (hcell : (table.cell a.row).isFree = false) (order : List Int) :
    a.row ∈ table.walk order a := by
  have hstart : a.row ∈ List.range (rowCount table.inputs) :=
    List.mem_range.mpr (Assignment.row_lt_of_length ha)
  rw [walk]
  generalize List.range (rowCount table.inputs) = rows at hstart
  induction order generalizing rows with
  | nil => exact hstart
  | cons var order ih => exact ih _ (row_mem_narrow ha hcell hstart var)

/-- The diagram of an order answers every assignment by the one row the walk leaves. -/
theorem exists_build_eval_walk {order : List Int} (h : order.Perm (inputNumbers table.inputs)) :
    ∃ root, table.build order = .ok root ∧ ∀ a : Assignment, a.length = table.inputs →
      ∃ row < rowCount table.inputs, table.walk order a = [row] ∧
        root.eval a = .ok (table.cell row) := by
  obtain ⟨root, hbuild, hshape⟩ := table.exists_build h
  refine ⟨root, hbuild, fun a ha => ?_⟩
  rw [← Diagram.eval_shape, hshape]
  exact eval_ofCells_narrow ha table.reached_range h rfl

/-- A row that demands a literal gets it, whatever the order. -/
theorem eval_build_of_literal {order : List Int} (h : order.Perm (inputNumbers table.inputs))
    {root : Node} (hbuild : table.build order = .ok root) {row : Nat} {text : String}
    (hcell : table.cells[row]? = some (.literal text)) :
    root.eval (Assignment.ofRow table.inputs row) = .ok (.literal text) := by
  obtain ⟨hlength, -⟩ := List.getElem?_eq_some_iff.mp hcell
  rw [table.length_cells] at hlength
  have hliteral : table.cell row = .literal text := by
    rw [getElem?_cells hlength] at hcell
    exact Option.some.inj hcell
  have hback := Assignment.row_ofRow hlength
  obtain ⟨root', hbuild', hwalk⟩ := exists_build_eval_walk h
  obtain rfl : root' = root := Except.ok.inj (hbuild'.symm.trans hbuild)
  obtain ⟨left, -, hleft, heval⟩ := hwalk _ (Assignment.length_ofRow table.inputs row)
  -- The row is never given up, so it is the one that is left.
  have hmem := row_mem_walk (Assignment.length_ofRow table.inputs row)
    (by rw [hback, hliteral]; rfl) order
  rw [hleft, List.mem_singleton, hback] at hmem
  rw [heval, ← hmem, hliteral]

/-- **What a built diagram answers**: for every order, the cell of the one row that the walk over
    the table leaves.  Demanded literals are met exactly, whatever the order. -/
theorem build_answers_walk (table : Table) {order : List Int}
    (h : order.Perm (inputNumbers table.inputs)) :
    ∃ root, table.build order = .ok root ∧
      (∀ a : Assignment, a.length = table.inputs →
        ∃ row cell, table.walk order a = [row] ∧ table.cells[row]? = some cell ∧
          root.eval a = .ok cell) ∧
      (∀ (row : Nat) (text : String), table.cells[row]? = some (.literal text) →
        root.eval (Assignment.ofRow table.inputs row) = .ok (.literal text)) ∧
      ∀ order' : List Int, order'.Perm (inputNumbers table.inputs) →
        ∃ root', table.build order' = .ok root' ∧
          ∀ (row : Nat) (text : String), table.cells[row]? = some (.literal text) →
            root'.eval (Assignment.ofRow table.inputs row) =
              root.eval (Assignment.ofRow table.inputs row) := by
  obtain ⟨root, hbuild, hwalk⟩ := exists_build_eval_walk h
  refine ⟨root, hbuild, ?_, fun row text => eval_build_of_literal h hbuild, ?_⟩
  · intro a ha
    obtain ⟨row, hlt, hrow, heval⟩ := hwalk a ha
    exact ⟨row, table.cell row, hrow, getElem?_cells hlt, heval⟩
  · intro order' h'
    obtain ⟨root', hbuild', -⟩ := exists_build_eval_walk h'
    refine ⟨root', hbuild', fun row text hcell => ?_⟩
    rw [eval_build_of_literal h' hbuild' hcell, eval_build_of_literal h hbuild hcell]

/-- The second input is tested first; the free row it leads to then gives way to the row of `B`. -/
theorem build_answers_walk_corners :
    ([1, 0] : List Int).Perm (inputNumbers 2) ∧
      ∃ root, (⟨2, [.literal "A", .dontCare, .dontCare, .literal "B"], rfl⟩ : Table).build [1, 0] =
          .ok root ∧
        root.eval [true, false] = .ok (.literal "B") := by
  have hperm : ([1, 0] : List Int).Perm (inputNumbers 2) := by decide
  refine ⟨hperm, ?_⟩
  obtain ⟨root, hbuild, hwalk, -⟩ := build_answers_walk
    ⟨2, [.literal "A", .dontCare, .dontCare, .literal "B"], rfl⟩ hperm
  obtain ⟨row, cell, hrow, hcell, heval⟩ := hwalk [true, false] rfl
  have hthree : [3] = [row] := hrow
  obtain rfl : 3 = row := List.head_eq_of_cons_eq hthree
  obtain rfl : Cell.literal "B" = cell := Option.some.inj hcell
  exact ⟨root, hbuild, heval⟩

end Table

end Dichotomy
