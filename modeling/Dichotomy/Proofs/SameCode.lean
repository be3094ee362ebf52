import Dichotomy.Proofs.Languages
import Dichotomy.Proofs.ReorderedTests

/-!
# Diagrams with the same code

Without names for the inputs, two diagrams have the same code exactly when they differ in nothing
but the order of tests over one fallback.  Equal code is read back as one program, the program
tells the outline, and the outline tells the diagram up to that order.

## Main statements

- `Language.body_eq_iff`: equal code in one language.
- `Node.same_code_iff_reorders`: the same diagrams have equal code in both languages, and which
  candidates are rendered.
-/

namespace Dichotomy

/-! ## References tell inputs -/

/-- The position that a reference to an entry mentions. -/
def Reference.position : Reference → Int
  | name _ => 0
  | entry _ index => index

/-- Without names, an input is told from how it is mentioned. -/
theorem Names.position_refer {names : Names} (hnames : names.texts = []) {var : Int}
    (hvar : 0 ≤ var) : (names.refer var).position = var := by
  rw [refer_of_nil hnames]
  exact Int.toNat_of_nonneg hvar

/-- A list of inputs is told from how they are mentioned, if each of them is. -/
theorem map_position_map {refer : Int → Reference} {position : Reference → Int}
    (hrefer : ∀ var, 0 ≤ var → position (refer var) = var) {vars : List Int}
    (hvars : ∀ var ∈ vars, 0 ≤ var) : (vars.map refer).map position = vars := by
  rw [List.map_map]
  exact (List.map_congr_left fun var hvar => hrefer var (hvars var hvar)).trans (List.map_id vars)

/-! ## A program tells the outline -/

namespace Outline

variable {ι : Type}

/-- Outlines with one program unfold to one tree, if a reference tells its input and an expression
    its cell. -/
theorem unfold_eq_of_program {refer : Int → Reference} {expression : Cell → Token}
    {position : Reference → Int} (hrefer : ∀ var, 0 ≤ var → position (refer var) = var)
    (hexpression : Function.Injective fun cell => (expression cell).text)
    {o o' : Outline ι} (hinputs : ∀ var ∈ o.inputs, 0 ≤ var) (hinputs' : ∀ var ∈ o'.inputs, 0 ≤ var)
    {next : Program} (h : o.program refer expression next = o'.program refer expression next) :
    o.unfold = o'.unfold := by
  induction o generalizing o' next with
  | give mark cell =>
    cases o' with
    | test => cases h
    | give mark' cell' =>
      rw [program, program, Program.returns.injEq] at h
      rw [unfold, unfold, hexpression h.1]
  | test mark inputs high low ihHigh ihLow =>
    cases o' with
    | give => cases h
    | test mark' inputs' high' low' =>
      simp only [Outline.inputs, List.forall_mem_append] at hinputs hinputs'
      rw [program, program, Program.guarded.injEq] at h
      obtain ⟨hcondition, hblock, hrest⟩ := h
      -- The condition is a list of references, each of which tells its input.
      have hsame : inputs = inputs' := by
        rw [← map_position_map hrefer hinputs.1, hcondition, map_position_map hrefer hinputs'.1]
      rw [unfold, unfold, hsame, ihHigh hinputs.2.1 hinputs'.2.1 hblock,
        ihLow hinputs.2.2 hinputs'.2.2 hrest]

end Outline

/-! ## Code tells the diagram -/

namespace CodeStyle

/-- Marks are not written. -/
theorem body_shape {ι : Type} (style : CodeStyle) (names : Names) (level : Nat) (o : Outline ι) :
    style.body names level o.shape = style.body names level o := by
  induction o generalizing level with
  | give mark cell => rfl
  | test mark inputs high low ihHigh ihLow =>
    rw [Outline.shape, body, body, ihHigh, ihLow]

end CodeStyle

namespace Language

variable {ι : Type} (language : Language) {names : Names} {d d' : Diagram ι}

/-- **Equal code**: without names, code for two diagrams can be written, and it is the same exactly
    when they differ in nothing but the order of tests over one fallback. -/
theorem body_eq_iff (hnames : names.texts = []) (htests : ∀ var ∈ d.tests, 0 ≤ var)
    (htests' : ∀ var ∈ d'.tests, 0 ≤ var) (level : Nat) :
    ∃ text text', language.style.body names level d.outline = .ok text ∧
      language.style.body names level d'.outline = .ok text' ∧
      (text = text' ↔ d.shape.Reorders d'.shape) := by
  have hlegible : ∀ var : Int, (names.refer var).IsLegible :=
    Names.isLegible_refer_of_words (by rw [hnames]; exact fun _ h => absurd h List.not_mem_nil)
  have hposition : ∀ var : Int, 0 ≤ var → (names.refer var).position = var := fun _ hvar =>
    Names.position_refer hnames hvar
  have hexpression : Function.Injective fun cell => (language.style.expression cell).text := by
    simpa only [CodeStyle.text_expression] using language.value_injective
  obtain ⟨text, hbody, hread⟩ := language.read?_body htests (fun var _ => hlegible var) level
  obtain ⟨text', hbody', hread'⟩ := language.read?_body htests' (fun var _ => hlegible var) level
  refine ⟨text, text', hbody, hbody', ?_, ?_⟩
  · rintro rfl
    -- One text is read back as one program.
    have hunfold := Outline.unfold_eq_of_program hposition hexpression
      (fun var hvar => htests var (d.inputs_outline_subset hvar))
      (fun var hvar => htests' var (d'.inputs_outline_subset hvar))
      (Option.some.inj (hread.symm.trans hread'))
    have hfirst := d.reorders_unfold_outline
    rw [hunfold] at hfirst
    exact hfirst.trans d'.reorders_unfold_outline.symm
  · intro h
    -- Swaps do not change the outline but for its marks.
    have hsame : language.style.body names level d.outline =
        language.style.body names level d'.outline := by
      rw [← language.style.body_shape names level d.outline, ← d.outline_shape, h.outline_eq,
        d'.outline_shape, language.style.body_shape]
    exact Except.ok.inj (hbody.symm.trans (hsame.trans hbody'))

/-- The same for the bodies that are exported. -/
theorem exported_eq_iff {root root' : Node} {name text text' : String}
    (htests : ∀ var ∈ root.tests, 0 ≤ var) (htests' : ∀ var ∈ root'.tests, 0 ≤ var)
    (htext : language.format.body name [] root = .ok text)
    (htext' : language.format.body name [] root' = .ok text') :
    text = text' ↔ root.shape.Reorders root'.shape := by
  have hnames : (Names.given []).texts = [] := rfl
  obtain ⟨body, body', hbody, hbody', hiff⟩ := language.body_eq_iff hnames htests htests' 1
  rw [body_format, CodeStyle.bodyOf] at htext htext'
  rw [Except.ok.inj (htext.symm.trans hbody), Except.ok.inj (htext'.symm.trans hbody')]
  exact hiff

end Language

/-! ## Which candidates are rendered -/

namespace Node

/-- Diagrams that differ in the order of tests over one fallback have one score and one
    function. -/
theorem agree_of_reorders {d d' : Node} (h : d.shape.Reorders d'.shape) :
    d'.score = d.score ∧
      ∀ a : Assignment, a.Covers d → a.Covers d' ∧ d'.eval a = d.eval a := by
  refine ⟨by simpa using h.score_eq.symm, fun a hcovers => ?_⟩
  have hshape : a.Covers d.shape := by simpa [Assignment.Covers] using hcovers
  have hshape' := h.covers hshape
  exact ⟨by simpa [Assignment.Covers] using hshape', by simpa using (h.eval_eq hshape).symm⟩

/-- **Same code**: without names for the inputs, two diagrams have the same code in one language
    exactly when they have it in the other, and exactly when they differ in nothing but the order
    of tests over one fallback.  So the functions for some candidates are those of candidates no
    two of which differ in nothing else, and each candidate differs from one of these in nothing
    else: that one has no higher number, the same score and the same answers. -/
theorem same_code_iff_reorders (names : Names) (hnames : names.texts = []) (level : Nat) :
    (∀ first second : Node, (∀ var ∈ first.tests, 0 ≤ var) → (∀ var ∈ second.tests, 0 ≤ var) →
      ∃ script script' python python',
        JavaScript.style.body names level first.outline = .ok script ∧
        JavaScript.style.body names level second.outline = .ok script' ∧
        Python.style.body names level first.outline = .ok python ∧
        Python.style.body names level second.outline = .ok python' ∧
        (script = script' ↔ python = python') ∧
        (python = python' ↔ first.shape.Reorders second.shape)) ∧
    ∀ (language : Language) (candidates : List Candidate) (name : String),
      (∀ c ∈ candidates, ∀ var ∈ c.root.tests, 0 ≤ var) →
      ∃ (kept : List Candidate) (text : Candidate → String),
        language.format.renderings candidates name [] =
          .ok (kept.map fun k => language.format.complete name [] k.id (text k)) ∧
        (∀ k ∈ kept, language.format.body name [] k.root = .ok (text k)) ∧
        kept ⊆ candidates ∧ (kept.Pairwise fun k k' => k.id ≤ k'.id) ∧
        (kept.Pairwise fun k k' => ¬ k.root.shape.Reorders k'.root.shape) ∧
        ∀ c ∈ candidates, ∃ k ∈ kept, k.id ≤ c.id ∧ c.root.shape.Reorders k.root.shape ∧
          k.root.score = c.root.score ∧
          ∀ a : Assignment, a.Covers c.root → a.Covers k.root ∧ k.root.eval a = c.root.eval a := by
  constructor
  · intro first second hfirst hsecond
    obtain ⟨script, script', hscript, hscript', hscripts⟩ :=
      Language.javaScript.body_eq_iff hnames hfirst hsecond level
    obtain ⟨python, python', hpython, hpython', hpythons⟩ :=
      Language.python.body_eq_iff hnames hfirst hsecond level
    exact ⟨script, script', python, python', hscript, hscript', hpython, hpython',
      hscripts.trans hpythons.symm, hpythons⟩
  · intro language candidates name htests
    obtain ⟨kept, text, hkept, hkeeps, htext⟩ := language.exists_renderings htests
      (fun _ h => absurd h List.not_mem_nil) name
    have hiff : ∀ c ∈ candidates, ∀ c' ∈ candidates,
        text c = text c' ↔ c.root.shape.Reorders c'.root.shape := fun c hc c' hc' =>
      language.exported_eq_iff (htests c hc) (htests c' hc') (htext c hc).1 (htext c' hc').1
    refine ⟨kept, text, hkept, fun k hk => (htext k (hkeeps.subset hk)).1, hkeeps.subset,
      hkeeps.ascending, ?_, fun c hc => ?_⟩
    · refine hkeeps.distinct.imp_of_mem fun hk hk' hne hreorders => hne ?_
      exact (hiff _ (hkeeps.subset hk) _ (hkeeps.subset hk')).mpr hreorders
    · obtain ⟨k, hk, hsame, hle⟩ := hkeeps.represents c hc
      have hreorders := (hiff c hc k (hkeeps.subset hk)).mp hsame.symm
      obtain ⟨hscore, hanswers⟩ := agree_of_reorders hreorders
      exact ⟨k, hk, hle, hreorders, hscore, hanswers⟩

/-- Two tests over one fallback in either order: of the two candidates one function is written. -/
theorem same_code_iff_reorders_swapped :
    let first : Node := .branch 4 0 (.branch 3 1 (.leaf 0 (.literal "it's")) (.leaf 1 .dontCare))
      (.leaf 2 .dontCare)
    let second : Node := .branch 9 1 (.branch 8 0 (.leaf 5 (.literal "it's")) (.leaf 6 .dontCare))
      (.leaf 7 .dontCare)
    let candidates : List Candidate := [⟨1, [0, 1], first, 2⟩, ⟨2, [1, 0], second, 2⟩]
    (Names.given []).texts = [] ∧ (∀ var ∈ first.tests, 0 ≤ var) ∧ (∀ var ∈ second.tests, 0 ≤ var) ∧
      first.shape.Reorders second.shape ∧
      (∃ script, JavaScript.style.body (.given []) 1 first.outline = .ok script ∧
        JavaScript.style.body (.given []) 1 second.outline = .ok script) ∧
      ∃ functions, ExportFormat.python.renderings candidates "decide" [] = .ok functions ∧
        functions.length = 1 := by
  intro first second candidates
  have hfirst : ∀ var ∈ first.tests, 0 ≤ var := by decide
  have hsecond : ∀ var ∈ second.tests, 0 ≤ var := by decide
  have hreorders : first.shape.Reorders second.shape := .swap 0 1 (.leaf () (.literal "it's")) _
  obtain ⟨hcode, hrendered⟩ := same_code_iff_reorders (.given []) rfl 1
  obtain ⟨script, script', _, _, hscript, hscript', -, -, hscripts, hpythons⟩ :=
    hcode first second hfirst hsecond
  obtain rfl := hscripts.mpr (hpythons.mpr hreorders)
  obtain ⟨kept, text, hkept, -, hsubset, -, hdistinct, hrepresents⟩ :=
    hrendered .python candidates "decide" (by
      intro c hc
      simp only [candidates, List.mem_cons, List.not_mem_nil, or_false] at hc
      rcases hc with rfl | rfl
      · exact hfirst
      · exact hsecond)
  refine ⟨rfl, hfirst, hsecond, hreorders, ⟨script, hscript, hscript'⟩, _, hkept, ?_⟩
  -- All candidates have this code, so no two of them are kept.
  have hsame : ∀ k ∈ kept, k.root.shape.Reorders first.shape := by
    intro k hk
    have hmem := hsubset hk
    simp only [candidates, List.mem_cons, List.not_mem_nil, or_false] at hmem
    rcases hmem with rfl | rfl
    · exact .refl _
    · exact hreorders.symm
  rw [List.length_map]
  match kept, hsame, hdistinct, hrepresents with
  | [], _, _, hrepresents =>
    obtain ⟨k, hk, -⟩ := hrepresents _ List.mem_cons_self
    cases hk
  | [_], _, _, _ => rfl
  | k :: k' :: _, hsame, hdistinct, _ =>
    have hne := (List.pairwise_cons.mp hdistinct).1 k' List.mem_cons_self
    exact absurd ((hsame k List.mem_cons_self).trans
      (hsame k' (List.mem_cons_of_mem _ List.mem_cons_self)).symm) hne

end Node

end Dichotomy
