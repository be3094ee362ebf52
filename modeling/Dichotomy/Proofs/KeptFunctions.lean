import Dichotomy.Proofs.SameChart

/-!
# Functions that flowcharts lose

Of the candidates whose flowcharts have one text, one is exported.  Nothing is lost by that if
different cells are written differently: in Mermaid, if no text holds the entity for the quote, and
in DOT, if there is no free cell beside the literal `null`.  Nothing is lost either, whatever the
texts are, among the diagrams that are built for one table.

## Main statements

- `ChartFormat.keepsFunctions_of_reorders`: which candidates are exported.
- `ExportFormat.mermaid_tells_plain_cells`, `ExportFormat.dot_tells_demanded_cells`: both formats.
-/

namespace Dichotomy

/-! ## Which candidates are exported -/

namespace ExportFormat

/-- If some candidates can be rendered, each of them can. -/
theorem exists_body_of_renderings {format : ExportFormat} {candidates : List Candidate}
    {name : String} {names texts : List String}
    (h : format.renderings candidates name names = .ok texts) :
    ∀ c ∈ candidates, ∃ text, format.body name names c.root = .ok text := by
  intro c hc
  rw [renderings, distinctRenderings] at h
  obtain ⟨distinct, hdistinct, -⟩ := exists_of_bind_eq_ok h
  obtain ⟨rendered, hrendered, -⟩ := exists_of_bind_eq_ok hdistinct
  have hmem : (c.id, c.root) ∈ candidates.map fun c => (c.id, c.root) := List.mem_map_of_mem hc
  obtain ⟨entry, -, hentry⟩ :=
    exists_of_mapM_eq_ok hrendered _ ((List.mergeSort_perm _ _).mem_iff.mpr hmem)
  obtain ⟨text, htext, -⟩ := exists_of_bind_eq_ok hentry
  exact ⟨text, htext⟩

/-- Some graphs are those of candidates that are kept, and each candidate has the function of one
    of these, with no higher number. -/
def KeepsFunctions (format : ExportFormat) (name : String) (candidates : List Candidate)
    (graphs : List String) : Prop :=
  ∃ (kept : List Candidate) (text : Candidate → String),
    graphs = kept.map (fun k => format.complete name [] k.id (text k)) ∧
    (∀ k ∈ kept, k ∈ candidates ∧ format.body name [] k.root = .ok (text k)) ∧
    ∀ c ∈ candidates, ∃ k ∈ kept, k.id ≤ c.id ∧
      ∀ a : Assignment, a.Covers c.root → a.Covers k.root ∧ k.root.eval a = c.root.eval a

/-- Candidates with one graph have one function. -/
theorem KeepsFunctions.eval_eq {format : ExportFormat} {name graph : String}
    {candidates : List Candidate} (h : format.KeepsFunctions name candidates [graph])
    {c c' : Candidate} (hc : c ∈ candidates) (hc' : c' ∈ candidates) {a : Assignment}
    (ha : a.Covers c.root) (ha' : a.Covers c'.root) : c.root.eval a = c'.root.eval a := by
  obtain ⟨kept, text, hgraph, -, hrepresents⟩ := h
  obtain ⟨kept, rfl, -⟩ := List.map_eq_singleton_iff.mp hgraph.symm
  obtain ⟨k, hk, -, hsame⟩ := hrepresents c hc
  obtain ⟨k', hk', -, hsame'⟩ := hrepresents c' hc'
  obtain rfl := List.mem_singleton.mp hk
  obtain rfl := List.mem_singleton.mp hk'
  exact (hsame a ha).2.symm.trans (hsame' a ha').2

end ExportFormat

namespace ChartFormat

variable (chartFormat : ChartFormat) {candidates : List Candidate} {name : String}
  {graphs : List String}

/-- **Which candidates are exported**: no function is lost if candidates that are written alike
    differ in nothing but the order of tests over one fallback. -/
theorem keepsFunctions_of_reorders (hstored : ∀ c ∈ candidates, ∃ s, c.root.IsStored s)
    (hreorders : ∀ c ∈ candidates, ∀ c' ∈ candidates,
      c.root.outline.Alike chartFormat.WritesAlike c'.root.outline →
        c.root.shape.Reorders c'.root.shape)
    (h : chartFormat.format.renderings candidates name [] = .ok graphs) :
    chartFormat.format.KeepsFunctions name candidates graphs := by
  have hbodies := ExportFormat.exists_body_of_renderings h
  choose! text htext using hbodies
  obtain ⟨kept, hkept, hkeeps⟩ := chartFormat.format.exists_renderings name [] htext
  refine ⟨kept, text, Except.ok.inj (h.symm.trans hkept), fun k hk => ?_, fun c hc => ?_⟩
  · exact ⟨hkeeps.subset hk, htext k (hkeeps.subset hk)⟩
  · obtain ⟨k, hk, hsame, hle⟩ := hkeeps.represents c hc
    have hkc := hkeeps.subset hk
    obtain ⟨s, hs⟩ := hstored c hc
    obtain ⟨s', hs'⟩ := hstored k hkc
    have halike := chartFormat.alike_outlines hs hs' (htext c hc) (hsame ▸ htext k hkc)
    exact ⟨k, hk, hle, (Node.agree_of_reorders (hreorders c hc k hkc halike)).2⟩

/-- No function is lost if the cells of all candidates are told apart. -/
theorem keepsFunctions_of_tells (hstored : ∀ c ∈ candidates, ∃ s, c.root.IsStored s)
    (htells : chartFormat.Tells (candidates.flatMap (·.root.cells)))
    (h : chartFormat.format.renderings candidates name [] = .ok graphs) :
    chartFormat.format.KeepsFunctions name candidates graphs := by
  have hcells : ∀ c ∈ candidates, c.root.cells ⊆ candidates.flatMap (·.root.cells) :=
    fun c hc _ hcell => List.mem_flatMap.mpr ⟨c, hc, hcell⟩
  exact chartFormat.keepsFunctions_of_reorders hstored (fun c hc c' hc' halike =>
    chartFormat.reorders_of_tells halike htells (hcells c hc) (hcells c' hc')) h

/-- No function of a table is lost, whatever its cells are. -/
theorem keepsFunctions_of_builds {table : Table} (hbuilds : table.Builds candidates) :
    ∃ graphs, chartFormat.format.renderings candidates name [] = .ok graphs ∧
      chartFormat.format.KeepsFunctions name candidates graphs := by
  have hbodies : ∀ c ∈ candidates, ∃ text,
      chartFormat.format.body name [] c.root = .ok text := by
    intro c hc
    obtain ⟨order, horder, hroot⟩ := hbuilds.exists_root hc
    exact hroot ▸ chartFormat.format.exists_body_root name [] horder
  choose! text htext using hbodies
  obtain ⟨kept, hkept, -⟩ := chartFormat.format.exists_renderings name [] htext
  refine ⟨_, hkept, chartFormat.keepsFunctions_of_reorders (fun c hc => ?_) ?_ hkept⟩
  · obtain ⟨order, horder, hroot⟩ := hbuilds.exists_root hc
    exact hroot ▸ Table.exists_isStored_root horder
  · intro c hc c' hc' halike
    obtain ⟨order, horder, hroot⟩ := hbuilds.exists_root hc
    obtain ⟨order', horder', hroot'⟩ := hbuilds.exists_root hc'
    rw [hroot, hroot'] at halike ⊢
    exact Table.reorders_of_alike horder horder' halike

end ChartFormat

/-! ## Both formats -/

namespace ExportFormat

/-- **Mermaid**: without names, stored diagrams with one text give cells whose boxes read the same,
    and one cell if no text holds the entity for the quote.  So no function is lost among
    candidates without such a text, nor among candidates that have been built for one table. -/
theorem mermaid_tells_plain_cells (name : String) :
    (∀ (s s' : Store) (first second : Node) (text : String),
      first.IsStored s → second.IsStored s' →
      mermaid.body name [] first = .ok text → mermaid.body name [] second = .ok text →
      (∀ a : Assignment, a.Covers first → a.Covers second ∧ ∃ cell cell',
        first.eval a = .ok cell ∧ second.eval a = .ok cell' ∧
          Mermaid.boxText cell = Mermaid.boxText cell') ∧
      ((∀ text, .literal text ∈ first.cells ++ second.cells → Mermaid.IsPlain text) →
        ∀ a : Assignment, a.Covers first → second.eval a = first.eval a)) ∧
    (∀ (candidates : List Candidate) (graphs : List String),
      (∀ c ∈ candidates, ∃ s, c.root.IsStored s) →
      (∀ text, .literal text ∈ candidates.flatMap (·.root.cells) → Mermaid.IsPlain text) →
      mermaid.renderings candidates name [] = .ok graphs →
        mermaid.KeepsFunctions name candidates graphs) ∧
    ∀ (table : Table) (candidates : List Candidate), table.Builds candidates →
      ∃ graphs, mermaid.renderings candidates name [] = .ok graphs ∧
        mermaid.KeepsFunctions name candidates graphs := by
  refine ⟨fun s s' first second text hfirst hsecond hbody hbody' => ?_,
    fun candidates graphs hstored hplain hgraphs => ?_, fun table candidates hbuilds => ?_⟩
  · obtain ⟨hboxes, hcells⟩ := ChartFormat.mermaid.evals_of_body hfirst hsecond hbody hbody'
    exact ⟨hboxes, fun hplain => hcells (ChartFormat.tells_of_isPlain hplain)⟩
  · exact ChartFormat.mermaid.keepsFunctions_of_tells hstored
      (ChartFormat.tells_of_isPlain hplain) hgraphs
  · exact ChartFormat.mermaid.keepsFunctions_of_builds hbuilds

/-- Two tests over one fallback in either order: a function is that of a graph for both. -/
theorem mermaid_tells_plain_cells_swapped :
    let first : Node := .branch 3 0 (.branch 2 1 (.leaf 0 (.literal "A")) (.leaf 1 .dontCare))
      (.leaf 1 .dontCare)
    let second : Node := .branch 5 1 (.branch 4 0 (.leaf 0 (.literal "A")) (.leaf 1 .dontCare))
      (.leaf 1 .dontCare)
    let s : Store := ⟨#[.leaf 0 (.literal "A"), .leaf 1 .dontCare,
      .branch 2 1 (.leaf 0 (.literal "A")) (.leaf 1 .dontCare), first,
      .branch 4 0 (.leaf 0 (.literal "A")) (.leaf 1 .dontCare), second]⟩
    let candidates : List Candidate := [⟨1, [0, 1], first, 2⟩, ⟨2, [1, 0], second, 2⟩]
    let table : Table := ⟨1, [.literal "\"", .literal "#quot;"], rfl⟩
    first.IsStored s ∧ second.IsStored s ∧
      (∀ text, .literal text ∈ candidates.flatMap (·.root.cells) → Mermaid.IsPlain text) ∧
      Assignment.Covers [true, false] first ∧
      second.eval [true, false] = first.eval [true, false] ∧
      (∃ text, mermaid.body "decideLogic" [] first = .ok text ∧
        mermaid.body "decideLogic" [] second = .ok text ∧
        mermaid.renderings candidates "decideLogic" [] = .ok [Mermaid.graph 1 text] ∧
        mermaid.KeepsFunctions "decideLogic" candidates [Mermaid.graph 1 text]) ∧
      ∃ graphs, mermaid.renderings table.found "decideLogic" [] = .ok graphs ∧
        mermaid.KeepsFunctions "decideLogic" table.found graphs := by
  intro first second s candidates table
  have hfirst : first.IsStored s := by
    unfold Node.IsStored
    decide
  have hsecond : second.IsStored s := by
    unfold Node.IsStored
    decide
  obtain ⟨text, hbody⟩ := mermaid.exists_body_of_isStored "decideLogic" [] hfirst (by decide)
  have hbody' : mermaid.body "decideLogic" [] second = .ok text :=
    eq_ok_of_toOption_eq (by decide +kernel) hbody
  have hplain : ∀ text, .literal text ∈ candidates.flatMap (·.root.cells) →
      Mermaid.IsPlain text := by
    intro text htext
    have hcells : candidates.flatMap (·.root.cells) = [.literal "A", .dontCare, .dontCare,
      .literal "A", .dontCare, .dontCare] := rfl
    simp only [hcells, List.mem_cons, Cell.literal.injEq, reduceCtorEq, List.not_mem_nil, or_false,
      false_or, or_self] at htext
    subst htext
    decide
  have hcovers : Assignment.Covers [true, false] first := by
    unfold Assignment.Covers
    decide
  have hone : mermaid.renderings candidates "decideLogic" [] = .ok [Mermaid.graph 1 text] :=
    renderings_pair (by decide) hbody hbody'
  have hstored : ∀ c ∈ candidates, ∃ s, c.root.IsStored s :=
    List.forall_mem_cons.mpr ⟨⟨s, hfirst⟩, List.forall_mem_singleton.mpr ⟨s, hsecond⟩⟩
  obtain ⟨htold, hkept, hbuilt⟩ := mermaid_tells_plain_cells "decideLogic"
  exact ⟨hfirst, hsecond, hplain, hcovers,
    (htold s s first second text hfirst hsecond hbody hbody').2 hplain _ hcovers,
    ⟨text, hbody, hbody', hone, hkept candidates _ hstored hplain hone⟩,
    hbuilt table table.found table.builds_found⟩

/-- The entity for the quote is not escaped: a text that holds it reads like the quote, so one of
    two functions is lost. -/
theorem mermaid_loses_entity :
    let quote : Node := .leaf 0 (.literal "\"")
    let entity : Node := .leaf 1 (.literal "#quot;")
    let candidates : List Candidate := [⟨1, [], quote, 1⟩, ⟨2, [], entity, 1⟩]
    let text := "graph TD\n    Start([\"decideLogic\"]) --> N0\n    N0[\"#quot;\"]"
    quote.IsStored ⟨#[quote, entity]⟩ ∧ entity.IsStored ⟨#[quote, entity]⟩ ∧
      mermaid.body "decideLogic" [] quote = .ok text ∧
      mermaid.body "decideLogic" [] entity = .ok text ∧
      entity.eval [] ≠ quote.eval [] ∧
      mermaid.renderings candidates "decideLogic" [] = .ok [Mermaid.graph 1 text] ∧
      ¬ mermaid.KeepsFunctions "decideLogic" candidates [Mermaid.graph 1 text] := by
  intro quote entity candidates text
  have hquote : mermaid.body "decideLogic" [] quote = .ok text :=
    eq_ok_of_toOption_eq (by decide +kernel) rfl
  have hentity : mermaid.body "decideLogic" [] entity = .ok text :=
    eq_ok_of_toOption_eq (by decide +kernel) rfl
  have hne : entity.eval [] ≠ quote.eval [] := by
    intro h
    exact absurd (Cell.literal.inj (Except.ok.inj h)) (by decide)
  have hone : mermaid.renderings candidates "decideLogic" [] = .ok [Mermaid.graph 1 text] :=
    renderings_pair (by decide) hquote hentity
  refine ⟨by unfold Node.IsStored; decide, by unfold Node.IsStored; decide, hquote, hentity, hne,
    hone, fun hkeeps => hne ?_⟩
  exact hkeeps.eval_eq (List.mem_cons_of_mem _ List.mem_cons_self) List.mem_cons_self
    (by unfold Assignment.Covers; decide) (by unfold Assignment.Covers; decide)

/-- **DOT**: without names, stored diagrams with one text give one cell, or a free cell and the
    literal `null`: the boxes of these read the same.  So no function is lost among candidates
    that do not have both of these cells, nor among candidates that have been built for one
    table. -/
theorem dot_tells_demanded_cells (name : String) :
    (∀ (n n' : Nat) (text : String), Dot.elementLine (.result n .dontCare) =
      Dot.elementLine (.result n' (.literal text)) ↔ n = n' ∧ text = "null") ∧
    (∀ (s s' : Store) (first second : Node) (text : String),
      first.IsStored s → second.IsStored s' →
      dot.body name [] first = .ok text → dot.body name [] second = .ok text →
      (∀ a : Assignment, a.Covers first → a.Covers second ∧ ∃ cell cell',
        first.eval a = .ok cell ∧ second.eval a = .ok cell' ∧
          (cell = cell' ∨ (cell = .dontCare ∧ cell' = .literal "null") ∨
            (cell = .literal "null" ∧ cell' = .dontCare))) ∧
      (¬ (.dontCare ∈ first.cells ++ second.cells ∧
          .literal "null" ∈ first.cells ++ second.cells) →
        ∀ a : Assignment, a.Covers first → second.eval a = first.eval a)) ∧
    (∀ (candidates : List Candidate) (graphs : List String),
      (∀ c ∈ candidates, ∃ s, c.root.IsStored s) →
      ¬ (.dontCare ∈ candidates.flatMap (·.root.cells) ∧
        .literal "null" ∈ candidates.flatMap (·.root.cells)) →
      dot.renderings candidates name [] = .ok graphs →
        dot.KeepsFunctions name candidates graphs) ∧
    ∀ (table : Table) (candidates : List Candidate), table.Builds candidates →
      ∃ graphs, dot.renderings candidates name [] = .ok graphs ∧
        dot.KeepsFunctions name candidates graphs := by
  refine ⟨fun n n' text => Dot.elementLine_free_eq_iff,
    fun s s' first second text hfirst hsecond hbody hbody' => ?_,
    fun candidates graphs hstored hdemand hgraphs => ?_, fun table candidates hbuilds => ?_⟩
  · obtain ⟨hboxes, hcells⟩ := ChartFormat.dot.evals_of_body hfirst hsecond hbody hbody'
    refine ⟨fun a ha => ?_, fun hdemand => hcells (ChartFormat.tells_dot_iff.mpr hdemand)⟩
    obtain ⟨hcovers, cell, cell', hcell, hcell', hsame⟩ := hboxes a ha
    exact ⟨hcovers, cell, cell', hcell, hcell', Dot.cellText_eq_iff.mp hsame⟩
  · exact ChartFormat.dot.keepsFunctions_of_tells hstored (ChartFormat.tells_dot_iff.mpr hdemand)
      hgraphs
  · exact ChartFormat.dot.keepsFunctions_of_builds hbuilds

/-- Two tests over one fallback in either order, and a table with a free cell and the literal
    `null`: no function is lost. -/
theorem dot_tells_demanded_cells_swapped :
    let first : Node := .branch 3 0 (.branch 2 1 (.leaf 0 (.literal "\\\"")) (.leaf 1 .dontCare))
      (.leaf 1 .dontCare)
    let second : Node := .branch 5 1 (.branch 4 0 (.leaf 0 (.literal "\\\"")) (.leaf 1 .dontCare))
      (.leaf 1 .dontCare)
    let s : Store := ⟨#[.leaf 0 (.literal "\\\""), .leaf 1 .dontCare,
      .branch 2 1 (.leaf 0 (.literal "\\\"")) (.leaf 1 .dontCare), first,
      .branch 4 0 (.leaf 0 (.literal "\\\"")) (.leaf 1 .dontCare), second]⟩
    let candidates : List Candidate := [⟨1, [0, 1], first, 2⟩, ⟨2, [1, 0], second, 2⟩]
    let table : Table := ⟨1, [.dontCare, .literal "null"], rfl⟩
    first.IsStored s ∧ second.IsStored s ∧
      ¬ (.dontCare ∈ candidates.flatMap (·.root.cells) ∧
        .literal "null" ∈ candidates.flatMap (·.root.cells)) ∧
      Assignment.Covers [true, false] first ∧
      second.eval [true, false] = first.eval [true, false] ∧
      (∃ text, dot.body "decideLogic" [] first = .ok text ∧
        dot.body "decideLogic" [] second = .ok text ∧
        dot.renderings candidates "decideLogic" [] = .ok [Dot.graph 1 text] ∧
        dot.KeepsFunctions "decideLogic" candidates [Dot.graph 1 text]) ∧
      ∃ graphs, dot.renderings table.found "decideLogic" [] = .ok graphs ∧
        dot.KeepsFunctions "decideLogic" table.found graphs := by
  intro first second s candidates table
  have hfirst : first.IsStored s := by
    unfold Node.IsStored
    decide
  have hsecond : second.IsStored s := by
    unfold Node.IsStored
    decide
  obtain ⟨text, hbody⟩ := dot.exists_body_of_isStored "decideLogic" [] hfirst (by decide)
  have hbody' : dot.body "decideLogic" [] second = .ok text :=
    eq_ok_of_toOption_eq (by decide +kernel) hbody
  have hdemand : ¬ (.dontCare ∈ candidates.flatMap (·.root.cells) ∧
      .literal "null" ∈ candidates.flatMap (·.root.cells)) := by
    decide
  have hcovers : Assignment.Covers [true, false] first := by
    unfold Assignment.Covers
    decide
  have hone : dot.renderings candidates "decideLogic" [] = .ok [Dot.graph 1 text] :=
    renderings_pair (by decide) hbody hbody'
  have hstored : ∀ c ∈ candidates, ∃ s, c.root.IsStored s :=
    List.forall_mem_cons.mpr ⟨⟨s, hfirst⟩, List.forall_mem_singleton.mpr ⟨s, hsecond⟩⟩
  obtain ⟨-, htold, hkept, hbuilt⟩ := dot_tells_demanded_cells "decideLogic"
  exact ⟨hfirst, hsecond, hdemand, hcovers,
    (htold s s first second text hfirst hsecond hbody hbody').2 hdemand _ hcovers,
    ⟨text, hbody, hbody', hone, hkept candidates _ hstored hdemand hone⟩,
    hbuilt table table.found table.builds_found⟩

/-- The text in the box of a free cell is quoted as well: it reads like the literal `null`, so one
    of two functions is lost. -/
theorem dot_loses_null :
    let free : Node := .leaf 0 .dontCare
    let null : Node := .leaf 1 (.literal "null")
    let candidates : List Candidate := [⟨1, [], free, 1⟩, ⟨2, [], null, 1⟩]
    free.IsStored ⟨#[free, null]⟩ ∧ null.IsStored ⟨#[free, null]⟩ ∧
      ∃ text, dot.body "decideLogic" [] free = .ok text ∧
        dot.body "decideLogic" [] null = .ok text ∧
        null.eval [] ≠ free.eval [] ∧
        dot.renderings candidates "decideLogic" [] = .ok [Dot.graph 1 text] ∧
        ¬ dot.KeepsFunctions "decideLogic" candidates [Dot.graph 1 text] := by
  intro free null candidates
  have hstored : free.IsStored ⟨#[free, null]⟩ := by
    unfold Node.IsStored
    decide
  obtain ⟨text, hfree⟩ := dot.exists_body_of_isStored "decideLogic" [] hstored (by decide)
  have hnull : dot.body "decideLogic" [] null = .ok text :=
    eq_ok_of_toOption_eq (by decide +kernel) hfree
  have hne : null.eval [] ≠ free.eval [] := by
    intro h
    cases Except.ok.inj h
  have hone : dot.renderings candidates "decideLogic" [] = .ok [Dot.graph 1 text] :=
    renderings_pair (by decide) hfree hnull
  refine ⟨hstored, by unfold Node.IsStored; decide, text, hfree, hnull, hne, hone,
    fun hkeeps => hne ?_⟩
  exact hkeeps.eval_eq (List.mem_cons_of_mem _ List.mem_cons_self) List.mem_cons_self
    (by unfold Assignment.Covers; decide) (by unfold Assignment.Covers; decide)

end ExportFormat

end Dichotomy
