import Dichotomy.Proofs.AlikeFlowcharts
import Dichotomy.Proofs.BuiltForm
import Dichotomy.Proofs.DotTexts
import Dichotomy.Proofs.MermaidTexts
import Dichotomy.Proofs.StoredDiagrams

/-!
# Diagrams with the same flowchart

Without names for the inputs, stored diagrams whose flowcharts have one text go the same ways and
give cells that are written alike.  If their cells are told apart, the diagrams differ in nothing
but the order of tests over one fallback.  So do diagrams that are built for one table, whatever
its cells are: both answer each row that demands a literal, and these rows take all paths.

## Main statements

- `ChartFormat.alike_outlines`: what one text says of two diagrams.
- `ChartFormat.evals_of_body`: which cells diagrams with one text give.
- `Table.reorders_of_alike`: diagrams that are built for one table.
-/

namespace Dichotomy

/-! ## Without names -/

/-- Conditions without names are plain. -/
theorem Names.isPlain_condition {names : Names} (hnames : names.texts = []) (inputs : List Int) :
    Mermaid.IsPlain (names.condition inputs) := by
  have hentity : "#quot;".toList = '#' :: ['q', 'u', 'o', 't', ';'] := by decide
  intro hpart
  have hmem : '#' ∈ (names.condition inputs).toList :=
    hpart.subset (hentity ▸ List.mem_cons_self)
  rw [condition, String.toList_intercalate] at hmem
  rcases mem_intercalate hmem with hmem | ⟨chars, hchars, hmem⟩
  · exact absurd hmem (by decide)
  · simp only [List.map_map, List.mem_map, Function.comp_apply] at hchars
    obtain ⟨var, -, rfl⟩ := hchars
    -- A reference to an entry holds letters, brackets and digits.
    rw [refer_of_nil hnames, Reference.text, String.toList_append, String.toList_append,
      List.mem_append, List.mem_append] at hmem
    rcases hmem with (hmem | hmem) | hmem
    · rcases List.mem_append.mp (String.toList_append ▸ hmem) with hmem | hmem
      · exact absurd hmem (by decide)
      · exact absurd hmem (by decide)
    · exact absurd ((isIdentifier_repr var.toNat).2 '#' hmem) (by decide)
    · exact absurd hmem (by decide)

/-! ## Formats of flowcharts -/

/-- A format that flowcharts are written in. -/
inductive ChartFormat where
  /-- Mermaid graphs. -/
  | mermaid
  /-- DOT graphs. -/
  | dot
  deriving DecidableEq

namespace ChartFormat

/-- The format in which diagrams are exported. -/
def format : ChartFormat → ExportFormat
  | mermaid => .mermaid
  | dot => .dot

/-- The text of a flowchart below a start shape. -/
def text : ChartFormat → String → Flowchart → String
  | mermaid => Mermaid.body
  | dot => Dot.body

/-- What is written in the box of a cell. -/
def boxText : ChartFormat → Cell → String
  | mermaid => Mermaid.boxText
  | dot => Dot.cellText

variable (chartFormat : ChartFormat)

/-- Two cells are written alike. -/
def WritesAlike (cell cell' : Cell) : Prop := chartFormat.boxText cell = chartFormat.boxText cell'

theorem exists_flowchart_of_body {name text : String} {names : List String} {root : Node}
    (h : chartFormat.format.body name names root = .ok text) :
    ∃ chart, root.flowchart (.given names) = .ok chart ∧ chartFormat.text name chart = text := by
  cases chartFormat
  all_goals
    rw [format, ExportFormat.body] at h
    obtain ⟨chart, hchart, h⟩ := exists_of_bind_eq_ok h
    exact ⟨chart, hchart, Except.ok.inj h⟩

/-- Flowcharts with one text have parts that are written alike. -/
theorem alike_of_text_eq {names : Names} (hnames : names.texts = []) {name : String}
    {chart chart' : Flowchart} (h : chartFormat.text name chart = chartFormat.text name chart') :
    ∃ asks : String → String → Prop,
      (∀ inputs inputs', asks (names.condition inputs) (names.condition inputs') →
        names.condition inputs = names.condition inputs') ∧
      List.Forall₂ (Element.Alike chartFormat.WritesAlike asks) chart.elements chart'.elements := by
  cases chartFormat with
  | mermaid =>
    rw [text] at h
    exact ⟨_, fun inputs inputs' => Mermaid.quotedText_inj (Names.isPlain_condition hnames inputs)
      (Names.isPlain_condition hnames inputs'), (Mermaid.alike_of_body_eq h).2⟩
  | dot =>
    rw [text] at h
    exact ⟨Eq, fun _ _ hsame => hsame, (Dot.alike_of_body_eq h).2⟩

variable {s s' : Store} {first second : Node} {name text : String}

/-- **One text**: without names, stored diagrams with one text have outlines that are written
    alike. -/
theorem alike_outlines (hfirst : first.IsStored s) (hsecond : second.IsStored s')
    (hbody : chartFormat.format.body name [] first = .ok text)
    (hbody' : chartFormat.format.body name [] second = .ok text) :
    first.outline.Alike chartFormat.WritesAlike second.outline := by
  have hnames : (Names.given []).texts = [] := rfl
  obtain ⟨chart, hchart, htext⟩ := chartFormat.exists_flowchart_of_body hbody
  obtain ⟨chart', hchart', htext'⟩ := chartFormat.exists_flowchart_of_body hbody'
  have htests := Node.nonneg_of_flowchart hnames hfirst hchart
  have htests' := Node.nonneg_of_flowchart hnames hsecond hchart'
  obtain ⟨shown, labels, nodes, hshown, hshows⟩ := Node.exists_shows (.given []) hfirst htests
  obtain ⟨shown', labels', nodes', hshown', hshows'⟩ :=
    Node.exists_shows (.given []) hsecond htests'
  obtain rfl : shown = chart := Except.ok.inj (hshown.symm.trans hchart)
  obtain rfl : shown' = chart' := Except.ok.inj (hshown'.symm.trans hchart')
  obtain ⟨asks, hasks, helements⟩ :=
    chartFormat.alike_of_text_eq hnames (htext.trans htext'.symm)
  exact hshows.alike hshows' hnames htests htests' hasks helements hshows.shown hshows'.shown
    (hshows.first.trans hshows'.first.symm)

/-- Different ones of these cells are written differently. -/
def Tells (cells : List Cell) : Prop :=
  ∀ cell ∈ cells, ∀ cell' ∈ cells, chartFormat.WritesAlike cell cell' → cell = cell'

/-- Mermaid tells cells with plain texts. -/
theorem tells_of_isPlain {cells : List Cell}
    (h : ∀ text, .literal text ∈ cells → Mermaid.IsPlain text) : mermaid.Tells cells :=
  fun _ hcell _ hcell' hsame =>
    Mermaid.boxText_inj (fun text heq => h text (heq ▸ hcell))
      (fun text heq => h text (heq ▸ hcell')) hsame

/-- DOT tells all cells but a free one and the literal `null`. -/
theorem tells_dot_iff {cells : List Cell} :
    dot.Tells cells ↔ ¬ (.dontCare ∈ cells ∧ .literal "null" ∈ cells) := by
  constructor
  · rintro h ⟨hfree, hnull⟩
    cases h _ hfree _ hnull rfl
  · intro h cell hcell cell' hcell' hsame
    rcases Dot.cellText_eq_iff.mp hsame with heq | ⟨rfl, rfl⟩ | ⟨rfl, rfl⟩
    · exact heq
    · exact absurd ⟨hcell, hcell'⟩ h
    · exact absurd ⟨hcell', hcell⟩ h

/-- Where the cells are told apart, diagrams that are written alike differ in nothing but the
    order of tests over one fallback. -/
theorem reorders_of_tells (h : first.outline.Alike chartFormat.WritesAlike second.outline)
    {cells : List Cell} (htells : chartFormat.Tells cells) (hfirst : first.cells ⊆ cells)
    (hsecond : second.cells ⊆ cells) : first.shape.Reorders second.shape :=
  Diagram.reorders_of_alike (h.imp_of_mem fun cell hcell cell' hcell' =>
    htells cell (hfirst (Diagram.mem_cells_outline.mp hcell)) cell'
      (hsecond (Diagram.mem_cells_outline.mp hcell')))

/-- Stored diagrams with one text give cells that are written alike, and the same cells if these
    are told apart. -/
theorem evals_of_body (hfirst : first.IsStored s) (hsecond : second.IsStored s')
    (hbody : chartFormat.format.body name [] first = .ok text)
    (hbody' : chartFormat.format.body name [] second = .ok text) :
    (∀ a : Assignment, a.Covers first → a.Covers second ∧ ∃ cell cell',
      first.eval a = .ok cell ∧ second.eval a = .ok cell' ∧ chartFormat.WritesAlike cell cell') ∧
    (chartFormat.Tells (first.cells ++ second.cells) →
      ∀ a : Assignment, a.Covers first → second.eval a = first.eval a) := by
  have halike := chartFormat.alike_outlines hfirst hsecond hbody hbody'
  refine ⟨fun a ha => ⟨Diagram.covers_of_alike halike ha, Diagram.exists_evals_of_alike halike ha⟩,
    fun htells a ha => ?_⟩
  have hreorders := chartFormat.reorders_of_tells halike htells (List.subset_append_left _ _)
    (List.subset_append_right _ _)
  exact ((Node.agree_of_reorders hreorders).2 a ha).2

end ChartFormat

/-! ## Diagrams of one table -/

/-- Diagrams that are built for one table, and whose outlines are alike in any respect, differ in
    nothing but the order of tests over one fallback. -/
theorem Table.reorders_of_alike {table : Table} {order order' : List Int}
    (horder : order.Perm (inputNumbers table.inputs))
    (horder' : order'.Perm (inputNumbers table.inputs)) {same : Cell → Cell → Prop}
    (h : (table.root order).outline.Alike same (table.root order').outline) :
    (table.root order).shape.Reorders (table.root order').shape := by
  by_cases hdemand : ∃ text, Cell.literal text ∈ table.cells
  · -- Both answer the rows that demand a literal, and these rows take all paths.
    refine Diagram.reorders_of_alike ((isExercised_root hdemand horder).alike_eq
      (fun _ => tests_root_nonneg horder) h fun a ha => ⟨ha.covers_root horder, ?_⟩)
    obtain ⟨row, literal, hcell, rfl⟩ := ha
    rw [eval_build_of_literal horder (build_eq_root horder) hcell,
      eval_build_of_literal horder' (build_eq_root horder') hcell]
  · have hfree : ∀ cell ∈ table.cells, cell = .dontCare := by
      intro cell hcell
      cases cell with
      | literal literal => exact absurd ⟨literal, hcell⟩ hdemand
      | dontCare => rfl
    obtain ⟨mark, hroot⟩ := Diagram.exists_leaf_of_isFree ((isFree_root_iff horder).mpr hfree)
    obtain ⟨mark', hroot'⟩ := Diagram.exists_leaf_of_isFree ((isFree_root_iff horder').mpr hfree)
    rw [hroot, hroot']
    exact .refl _

/-- All candidates have been built for a table. -/
def Table.Builds (table : Table) (candidates : List Candidate) : Prop :=
  ∀ c ∈ candidates, ∃ order, order.Perm (inputNumbers table.inputs) ∧
    table.build order = .ok c.root

/-- All candidates of a search have been built for its table. -/
theorem Table.builds_found (table : Table) : table.Builds table.found := by
  intro c hc
  obtain ⟨⟨order, id⟩, hmem, rfl⟩ := List.mem_map.mp hc
  have horder := mem_arrangements.mp (List.fst_mem_of_mem_zipIdx hmem)
  exact ⟨order, horder, build_eq_root horder⟩

theorem Table.Builds.exists_root {table : Table} {candidates : List Candidate}
    (h : table.Builds candidates) {c : Candidate} (hc : c ∈ candidates) :
    ∃ order, order.Perm (inputNumbers table.inputs) ∧ c.root = table.root order := by
  obtain ⟨order, horder, hbuild⟩ := h c hc
  exact ⟨order, horder, Except.ok.inj (hbuild.symm.trans (build_eq_root horder))⟩

end Dichotomy
