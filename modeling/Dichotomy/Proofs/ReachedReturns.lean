import Dichotomy.Proofs.TakenPaths

/-!
# Return statements that are reached

A run of a program ends at one of its return statements, which are told apart by their positions
in the text.  If each path of a diagram is taken by one of some assignments, then each return
statement of its code ends the run for one of them.  So nothing is written down for nothing where
the table of a built diagram demands anything at all.

## Main statements

- `Program.run_eq_reached`: what is returned stands at the position that is reached.
- `Diagram.IsExercised.exists_reached`: code of an exercised diagram is exercised.
- `Table.build_exercised`: paths and return statements of built diagrams.
-/

namespace Dichotomy

/-! ## Positions of return statements -/

namespace Program

/-- The expressions of all return statements, in the order of the text. -/
def expressions : Program → List String
  | finish => []
  | returns expression rest => expression :: rest.expressions
  | guarded _ block rest => block.expressions ++ rest.expressions

/-- Runs a program: the position of the return statement that ends the run, or nothing if the end
    of the program is reached. -/
def reached (values : Reference → Option Bool) : Program → Except Reference (Option Nat)
  | finish => .ok none
  | returns _ _ => .ok (some 0)
  | guarded condition block rest =>
    match holds values condition with
    | .error reference => .error reference
    | .ok false => (rest.reached values).map (Option.map (block.expressions.length + ·))
    | .ok true =>
      match block.reached values with
      | .ok none => (rest.reached values).map (Option.map (block.expressions.length + ·))
      | result => result

variable {values : Reference → Option Bool}

/-- A run ends inside the text. -/
theorem reached_lt {p : Program} {i : Nat} (h : p.reached values = .ok (some i)) :
    i < p.expressions.length := by
  induction p generalizing i with
  | finish => cases h
  | returns expression rest _ =>
    obtain rfl : 0 = i := Option.some.inj (Except.ok.inj h)
    exact Nat.succ_pos _
  | guarded condition block rest ihBlock ihRest =>
    -- Behind the block, positions are counted on.
    have hrest (h : (rest.reached values).map (Option.map (block.expressions.length + ·)) =
        .ok (some i)) : i < (block.expressions ++ rest.expressions).length := by
      rcases hreached : rest.reached values with reference | _ | j
      · rw [hreached] at h
        cases h
      · rw [hreached] at h
        cases h
      · rw [hreached] at h
        obtain rfl : block.expressions.length + j = i := Option.some.inj (Except.ok.inj h)
        have hj := ihRest hreached
        rw [List.length_append]
        omega
    rw [reached] at h
    rw [expressions]
    split at h
    · cases h
    · exact hrest h
    · split at h
      · exact hrest h
      · have hi := ihBlock h
        rw [List.length_append]
        omega

/-- **What is returned** stands at the position that is reached. -/
theorem run_eq_reached (values : Reference → Option Bool) (p : Program) :
    p.run values = (p.reached values).map fun position => position.bind (p.expressions[·]?) := by
  induction p with
  | finish => rfl
  | returns expression rest _ => rfl
  | guarded condition block rest ihBlock ihRest =>
    have hrest : rest.run values =
        ((rest.reached values).map (Option.map (block.expressions.length + ·))).map
          fun position => position.bind ((block.expressions ++ rest.expressions)[·]?) := by
      rw [ihRest]
      rcases rest.reached values with reference | _ | j
      · rfl
      · rfl
      · simp [Except.map, List.getElem?_append_right]
    rw [run, reached, expressions]
    cases holds values condition with
    | error reference => rfl
    | ok entered =>
      cases entered with
      | false => exact hrest
      | true =>
        rcases hblock : block.reached values with reference | _ | i
        · simp [ihBlock, hblock, Except.map]
        · simpa [ihBlock, hblock, Except.map] using hrest
        · -- A block that returns is left for good.
          have hi := reached_lt hblock
          have hreturns : block.run values = .ok (some block.expressions[i]) := by
            rw [ihBlock, hblock, ← List.getElem?_eq_getElem hi]
            rfl
          simp [hreturns, Except.map, List.getElem?_append_left hi]

/-- The expression that a run returns stands at the position that the run reaches. -/
theorem getElem?_expressions_of_run {p : Program} {i : Nat} {expression : String}
    (hreached : p.reached values = .ok (some i)) (hrun : p.run values = .ok (some expression)) :
    p.expressions[i]? = some expression := by
  rw [run_eq_reached, hreached] at hrun
  exact Except.ok.inj hrun

end Program

theorem Outline.length_expressions_program {ι : Type} (refer : Int → Reference)
    (expression : Cell → Token) (o : Outline ι) (next : Program) :
    (o.program refer expression next).expressions.length =
      o.results + next.expressions.length := by
  induction o generalizing next with
  | give mark cell => exact Nat.succ_eq_one_add _
  | test mark inputs high low ihHigh ihLow =>
    simp only [program, Program.expressions, results, List.length_append, ihHigh, ihLow,
      List.length_nil]
    omega

/-! ## Code of exercised diagrams -/

/-- **Exercised code**: if some assignments exercise a diagram, each return statement of its
    program ends the run for one of them. -/
theorem Diagram.IsExercised.exists_reached {ι : Type} {d : Diagram ι} {rows : Assignment → Prop}
    (hrows : d.IsExercised rows) (htests : ∀ var ∈ d.tests, 0 ≤ var) {refer : Int → Reference}
    (expression : Cell → Token) {values : Assignment → Reference → Option Bool}
    (hvalues : ∀ a, rows a → ∀ var ∈ d.tests, values a (refer var) = some (a.value var))
    (next : Program) {i : Nat} (hi : i < d.outline.results) :
    ∃ a, rows a ∧ (d.outline.program refer expression next).reached (values a) = .ok (some i) := by
  induction d using opening_induction generalizing rows next i with
  | give d cell hopening =>
    obtain ⟨a, ha⟩ := hrows.exists
    rw [outline_eq, hopening] at hi ⊢
    obtain rfl : i = 0 := Nat.lt_one_iff.mp hi
    exact ⟨a, ha, rfl⟩
  | ask d inputs high low hopening ihHigh ihLow =>
    have hsubset := tests_opening_subset hopening
    have hhigh : high.tests ⊆ d.tests := fun var hvar =>
      hsubset (List.mem_append_right _ (List.mem_append_left _ hvar))
    have hlow : low.tests ⊆ d.tests := fun var hvar =>
      hsubset (List.mem_append_right _ (List.mem_append_right _ hvar))
    have hholds : ∀ a, rows a →
        Program.holds (values a) (inputs.map refer) = .ok (inputs.all a.value) := fun a ha =>
      Program.holds_map fun var hvar => hvalues a ha var (hsubset (List.mem_append_left _ hvar))
    have hlength := high.outline.length_expressions_program refer expression .finish
    rw [outline_eq, hopening] at hi ⊢
    simp only [Outline.program, Program.reached]
    by_cases hblock : i < high.outline.results
    · -- A statement of the block is reached by one of those that enter it.
      obtain ⟨a, ⟨ha, hall⟩, hreached⟩ := ihHigh (hrows.side hopening htests true)
        (fun var hvar => htests var (hhigh hvar))
        (fun a ha var hvar => hvalues a ha.1 var (hhigh hvar)) .finish hblock
      refine ⟨a, ha, ?_⟩
      rw [hholds a ha, hall]
      simp only [hreached]
    · have hrest : i - high.outline.results < low.outline.results := by
        simp only [Outline.results] at hi
        omega
      obtain ⟨a, ⟨ha, hall⟩, hreached⟩ := ihLow (hrows.side hopening htests false)
        (fun var hvar => htests var (hlow hvar))
        (fun a ha var hvar => hvalues a ha.1 var (hlow hvar)) next hrest
      refine ⟨a, ha, ?_⟩
      rw [hholds a ha, hall]
      simp only [hreached, Except.map, Option.map, hlength, Program.expressions, List.length_nil]
      congr 2
      omega

/-! ## Code of built diagrams -/

namespace Table

variable {table : Table} {order : List Int}

/-- Each return statement of the code for a built diagram is executed on a row that demands the
    literal which is returned. -/
theorem exists_row_of_lt_expressions (hdemand : ∃ text, Cell.literal text ∈ table.cells)
    (horder : order.Perm (inputNumbers table.inputs)) {names : Names}
    (hnames : names.AreParameters (table.root order).tests) (style : CodeStyle) {i : Nat}
    (hi : i < (table.root order).score) :
    ∃ (row : Nat) (text : String), table.cells[row]? = some (.literal text) ∧
      ((table.root order).outline.program names.refer style.expression .finish).reached
        (Reference.value? names.texts (Assignment.ofRow table.inputs row)) = .ok (some i) ∧
      ((table.root order).outline.program names.refer style.expression .finish).call names.texts
        (Assignment.ofRow table.inputs row) = .ok (some (style.value (.literal text))) := by
  rw [← Diagram.results_outline] at hi
  have hexercised := isExercised_root hdemand horder
  obtain ⟨a, ha, hreached⟩ := hexercised.exists_reached (fun _ => tests_root_nonneg horder)
    style.expression (fun a ha var hvar => Names.value?_refer hnames hvar
      (ha.covers_root horder var hvar)) .finish hi
  obtain ⟨cell, heval, hcall⟩ :=
    (table.root order).call_program style hnames (ha.covers_root horder)
  obtain ⟨row, text, hcell, rfl⟩ := ha
  obtain rfl : Cell.literal text = cell := Except.ok.inj
    ((eval_build_of_literal horder (build_eq_root horder) hcell).symm.trans heval)
  exact ⟨row, text, hcell, hreached, hcall⟩

/-- **Nothing is written down for nothing**: if a table demands anything, a diagram is built for
    every order, each of its paths is taken by a row that demands the literal at the end of the
    path, and each return statement of its code, in both languages and with no names or different
    words for all tested inputs, is executed on a row that demands the literal which is
    returned. -/
theorem build_exercised (table : Table) (hdemand : ∃ text, Cell.literal text ∈ table.cells)
    {order : List Int} (horder : order.Perm (inputNumbers table.inputs)) :
    ∃ root, table.build order = .ok root ∧
      (∀ path cell, (path, cell) ∈ root.paths → ∃ (row : Nat) (text : String),
        table.cells[row]? = some (.literal text) ∧ cell = .literal text ∧
          (Assignment.ofRow table.inputs row).Takes path ∧
          root.eval (Assignment.ofRow table.inputs row) = .ok cell) ∧
      ∀ (language : Language) (name : String) (names : List String),
        (Names.given names).AreParameters root.tests →
        ∃ body program, language.format.body name names root = .ok body ∧
          language.read? body = some program ∧ program.expressions.length = root.score ∧
          ∀ i < program.expressions.length, ∃ (row : Nat) (text : String),
            table.cells[row]? = some (.literal text) ∧
            program.expressions[i]? = some (language.style.value (.literal text)) ∧
            program.reached (Reference.value? names (Assignment.ofRow table.inputs row)) =
              .ok (some i) ∧
            program.call names (Assignment.ofRow table.inputs row) =
              .ok (some (language.style.value (.literal text))) := by
  have hbuild := build_eq_root horder
  refine ⟨table.root order, hbuild, fun path cell hmem => ?_, fun language name names hnames => ?_⟩
  · obtain ⟨row, text, hcell, rfl, htakes⟩ := exists_row_of_mem_paths hdemand horder hmem
    have hcovers := Demands.covers_root ⟨row, text, hcell, rfl⟩ horder
    exact ⟨row, text, hcell, rfl, htakes, Diagram.eval_of_takes hcovers hmem htakes⟩
  · have htests : ∀ var ∈ (table.root order).tests, 0 ≤ var := fun _ => tests_root_nonneg horder
    obtain ⟨body, hbody, hread⟩ := language.read?_body htests
      (fun var hvar => Names.isLegible_refer hnames hvar (htests var hvar)) 1
    have hlength := (table.root order).outline.length_expressions_program
      (Names.given names).refer language.style.expression .finish
    rw [Program.expressions, List.length_nil, Nat.add_zero, Diagram.results_outline] at hlength
    refine ⟨body, _, (language.body_format name names _).trans hbody, hread, hlength,
      fun i hi => ?_⟩
    rw [hlength] at hi
    obtain ⟨row, text, hcell, hreached, hcall⟩ :=
      exists_row_of_lt_expressions hdemand horder hnames language.style hi
    exact ⟨row, text, hcell, Program.getElem?_expressions_of_run hreached hcall, hreached, hcall⟩

/-- Two tests over one fallback, which a free row gives way to: the fallback is written once, and
    its return statement is executed. -/
theorem build_exercised_fallback :
    let table : Table := ⟨2, [.literal "A", .literal "B", .literal "B", .dontCare], rfl⟩
    (∃ text, Cell.literal text ∈ table.cells) ∧ ([0, 1] : List Int).Perm (inputNumbers 2) ∧
      ∃ root, table.build [0, 1] = .ok root ∧ (Names.given []).AreParameters root.tests ∧
        ∃ body program, ExportFormat.python.body "decide" [] root = .ok body ∧
          Python.read? body = some program ∧ program.expressions.length = 2 ∧
          ∃ (row : Nat) (text : String), table.cells[row]? = some (.literal text) ∧
            program.reached (Reference.value? [] (Assignment.ofRow 2 row)) = .ok (some 1) := by
  intro table
  have hdemand : ∃ text, Cell.literal text ∈ table.cells := ⟨"A", List.mem_cons_self⟩
  have horder : ([0, 1] : List Int).Perm (inputNumbers 2) := by decide
  obtain ⟨root, hbuild, -, hcode⟩ := build_exercised table hdemand horder
  obtain ⟨body, program, hbody, hread, hlength, hreached⟩ := hcode .python "decide" [] (.inl rfl)
  have hscore : root.score = 2 := by
    rw [Except.ok.inj (hbuild.symm.trans (build_eq_root horder)), ← Diagram.score_shape,
      shape_root horder]
    rfl
  rw [hscore] at hlength
  obtain ⟨row, text, hcell, -, hrow, -⟩ := hreached 1 (by rw [hlength]; exact Nat.one_lt_two)
  exact ⟨hdemand, horder, root, hbuild, .inl rfl, body, program, hbody, hread, hlength, row, text,
    hcell, hrow⟩

end Table

end Dichotomy
