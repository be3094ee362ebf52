import Dichotomy.Proofs.Languages

/-!
# Closed functions

The body of a generated function mentions inputs by given names and, where there is none, as
entries of `input`.  The parameter list takes all arguments as `input` if no names are given, and
else one argument for each name.  So a function binds what its body mentions exactly if no name is
given or the names reach to all tested inputs: with some names only, the other inputs are looked
up in a list that no parameter declares.

## Main statements

- `Language.signature?_parameters`: the parameter list of a function is read back.
- `Signature.binds_refer_iff`: which inputs it binds.
- `Language.functions_closed_iff`: which of the functions for some candidates are closed.
-/

namespace Dichotomy

/-! ## What a program mentions -/

namespace Program

/-- The references in all conditions. -/
def references : Program → List Reference
  | finish => []
  | returns _ rest => rest.references
  | guarded condition block rest => condition ++ (block.references ++ rest.references)

end Program

/-- The program of an outline mentions the inputs of its conditions, each by its reference. -/
theorem Outline.references_program {ι : Type} (refer : Int → Reference) (expression : Cell → Token)
    (o : Outline ι) (next : Program) :
    (o.program refer expression next).references = o.inputs.map refer ++ next.references := by
  induction o generalizing next with
  | give mark cell => rfl
  | test mark inputs high low ihHigh ihLow =>
    simp [program, Program.references, Outline.inputs, ihHigh, ihLow]

/-! ## Parameter lists -/

/-- The parameters of a function: names for the first arguments, and a name for the list of the
    arguments behind them, if they are taken. -/
structure Signature where
  /-- The names of the first arguments. -/
  named : List String
  /-- The name of the list of all further arguments. -/
  rest : Option String
  deriving DecidableEq

namespace Signature

/-- Whether a reference is bound: a variable is the name of a parameter, and an entry of a list is
    an entry of the further arguments, at the place that the same argument has among all. -/
def Binds (signature : Signature) : Reference → Prop
  | .name text => text ∈ signature.named
  | .entry list index =>
    signature.rest = some list ∧ ∀ arguments : List Bool,
      (arguments.drop signature.named.length)[index]? = arguments[index]?

/-- The parameters for some names of inputs: all arguments as a list if there are no names. -/
def ofNames (names : List String) : Signature :=
  if names.isEmpty then ⟨[], some "input"⟩ else ⟨names, none⟩

/-- Reads parameters with commas between them; `mark` stands before the name of the list. -/
def read? (mark : String) : List Token → Option Signature
  | [] => some ⟨[], none⟩
  | [.symbol text, .word rest] => if text = mark then some ⟨[], some rest⟩ else none
  | [.word name] => some ⟨[name], none⟩
  | .word name :: .symbol "," :: more =>
    (read? mark more).map fun further => ⟨name :: further.named, further.rest⟩
  | _ => none

/-- Names with commas between them are read back. -/
theorem read?_names (mark : String) {names : List String} (hne : names ≠ []) :
    read? mark (conditionTokens (.symbol ",") (names.map Reference.name)) =
      some ⟨names, none⟩ := by
  induction names with
  | nil => exact absurd rfl hne
  | cons first names ih =>
    cases names with
    | nil => rfl
    | cons second names =>
      have htokens : conditionTokens (.symbol ",") ((first :: second :: names).map .name) =
          .word first :: .symbol "," ::
            conditionTokens (.symbol ",") ((second :: names).map .name) := by
        simp [conditionTokens, List.intercalate_cons_cons, Reference.tokens]
      rw [htokens, read?, ih (List.cons_ne_nil _ _)]
      rfl

/-- An input is bound if no names are given, or if one is given for it. -/
theorem binds_refer_iff {names : List String} (hwords : ∀ name ∈ names, IsIdentifier name)
    {var : Int} (hnonneg : 0 ≤ var) :
    (ofNames names).Binds ((Names.given names).refer var) ↔ names = [] ∨ var < names.length := by
  have hwords' : ∀ name ∈ (Names.given names).texts, IsIdentifier name := hwords
  by_cases hnames : names = []
  · subst hnames
    rw [Names.refer_of_nil rfl]
    simp [ofNames, Binds]
  · have hof : ofNames names = ⟨names, none⟩ := by simp [ofNames, hnames]
    rw [hof]
    by_cases hlt : var.toNat < names.length
    · have hbound : var < names.length := by omega
      have hname := Names.refer_of_lt hwords' hlt
      rw [hname]
      simp [Binds, hbound, Names.texts]
    · -- The input is looked up in a list, but none is taken.
      have hunbound : ¬ var < names.length := by omega
      have hentry : (Names.given names).refer var = .entry "input" var.toNat := by
        rw [Names.refer, Names.texts, List.getElem?_eq_none (by omega)]
      rw [hentry]
      simp [Binds, hunbound, hnames]

end Signature

namespace Language

variable (language : Language)

/-- What stands before the name of a parameter that takes all further arguments. -/
def restMark : Language → String
  | javaScript => "..."
  | python => "*"

/-- A function with given parameters and a given body, headed by its number. -/
def function (name : String) (id : Int) (parameters body : String) : String :=
  match language with
  | javaScript => "// ID: " ++ toString id ++ "\nfunction " ++ name ++ "(" ++ parameters ++
      ") \x7b\n" ++ body ++ "\x7d"
  | python => "# ID: " ++ toString id ++ "\ndef " ++ name ++ "(" ++ parameters ++ "):\n" ++ body

/-- Reads a parameter list. -/
def signature? (text : String) : Option Signature :=
  Signature.read? language.restMark (scan .between text.toList)

theorem complete_format (name : String) (names : List String) (id : Int) (body : String) :
    language.format.complete name names id body =
      language.function name id (parameters (language.restMark ++ "input") names) body := by
  cases language <;> rfl

/-- **Parameter lists**: the parameters of a function are those for the given words. -/
theorem signature?_parameters {names : List String} (hwords : ∀ name ∈ names, IsIdentifier name) :
    language.signature? (parameters (language.restMark ++ "input") names) =
      some (.ofNames names) := by
  by_cases hnames : names = []
  · subst hnames
    cases language <;> rfl
  · have hseparator : Scans ", ".toList [.symbol ","] := fun _ => rfl
    have hlegible : ∀ reference ∈ names.map Reference.name, reference.IsLegible := by
      intro reference hreference
      obtain ⟨name, hname, rfl⟩ := List.mem_map.mp hreference
      exact hwords name hname
    have hscans := scansUpTo_condition rfl (by decide) hseparator
      (List.map_eq_nil_iff.not.mpr hnames) hlegible
    have htexts : (names.map Reference.name).map Reference.text = names := by
      rw [List.map_map]
      exact List.map_id names
    rw [htexts] at hscans
    have hgiven : names.isEmpty = false := by simp [hnames]
    rw [signature?, parameters, hgiven, Signature.ofNames, hgiven]
    exact (congrArg _ hscans.scan_eq).trans (Signature.read?_names _ hnames)

/-- **Closed functions**: of the functions for some candidates, with given words as names, the
    parameters bind all that the body mentions exactly if no names are given or the names reach to
    all inputs that the diagram tests. -/
theorem functions_closed_iff {candidates : List Candidate} {names : List String}
    (htests : ∀ c ∈ candidates, ∀ var ∈ c.root.tests, 0 ≤ var)
    (hwords : ∀ name ∈ names, IsIdentifier name) (name : String) :
    ∃ (kept : List Candidate) (parameters : String) (body : Candidate → String)
      (signature : Signature),
      language.format.renderings candidates name names =
        .ok (kept.map fun c => language.function name c.id parameters (body c)) ∧
      kept ⊆ candidates ∧ language.signature? parameters = some signature ∧
      ∀ c ∈ kept, ∃ program, language.read? (body c) = some program ∧
        ((∀ reference ∈ program.references, signature.Binds reference) ↔
          names = [] ∨ ∀ var ∈ c.root.tests, var < names.length) := by
  obtain ⟨kept, body, hkept, hkeeps, hbody⟩ := language.exists_renderings htests hwords name
  simp only [complete_format] at hkept
  refine ⟨kept, _, body, _, hkept, hkeeps.subset, language.signature?_parameters hwords,
    fun c hc => ⟨_, (hbody c (hkeeps.subset hc)).2, ?_⟩⟩
  have hnonneg := htests c (hkeeps.subset hc)
  have hbinds : ∀ var ∈ c.root.tests,
      (Signature.ofNames names).Binds ((Names.given names).refer var) ↔
        names = [] ∨ var < names.length :=
    fun var hvar => Signature.binds_refer_iff hwords (hnonneg var hvar)
  -- The body mentions the tested inputs, each by its reference.
  simp only [Outline.references_program, Program.references, List.append_nil,
    List.forall_mem_map, c.root.perm_inputs_outline.mem_iff]
  constructor
  · intro h
    by_cases hnames : names = []
    · exact .inl hnames
    · exact .inr fun var hvar => ((hbinds var hvar).mp (h var hvar)).resolve_left hnames
  · rintro (hnames | hreach) var hvar
    · exact (hbinds var hvar).mpr (.inl hnames)
    · exact (hbinds var hvar).mpr (.inr (hreach var hvar))

/-- Names for both inputs, of which the second is tested. -/
theorem functions_closed_iff_both_named :
    let root : Node := .branch 2 1 (.leaf 0 (.literal "A")) (.leaf 1 (.literal "B"))
    (∀ c ∈ [(⟨1, [0, 1], root, 2⟩ : Candidate)], ∀ var ∈ c.root.tests, 0 ≤ var) ∧
      (∀ name ∈ ["a", "b"], IsIdentifier name) ∧
      ∃ functions, ExportFormat.python.renderings [⟨1, [0, 1], root, 2⟩] "decide" ["a", "b"] =
          .ok functions ∧
        ∀ code ∈ functions, ∃ parameters body signature program,
          code = python.function "decide" 1 parameters body ∧
          python.signature? parameters = some signature ∧ python.read? body = some program ∧
          ∀ reference ∈ program.references, signature.Binds reference := by
  intro root
  have htests : ∀ c ∈ [(⟨1, [0, 1], root, 2⟩ : Candidate)], ∀ var ∈ c.root.tests, 0 ≤ var := by
    decide
  have hwords : ∀ name ∈ ["a", "b"], IsIdentifier name := by decide
  obtain ⟨kept, parameters, body, signature, hkept, hsubset, hsignature, hclosed⟩ :=
    functions_closed_iff python htests hwords "decide"
  refine ⟨htests, hwords, _, hkept, fun code hcode => ?_⟩
  obtain ⟨c, hc, rfl⟩ := List.mem_map.mp hcode
  obtain ⟨program, hprogram, hbinds⟩ := hclosed c hc
  obtain rfl := List.mem_singleton.mp (hsubset hc)
  exact ⟨parameters, body _, signature, program, rfl, hsignature, hprogram,
    hbinds.mpr (.inr (by decide))⟩

/-- With a name for the first input only, a test of the second one looks it up in a list that the
    function does not take. -/
theorem partly_named_function_open :
    let root : Node := .branch 2 1 (.leaf 0 (.literal "A")) (.leaf 1 (.literal "B"))
    let body := "  if (input[1]) \x7b\n    return 'A';\n  \x7d\n  return 'B';\n"
    (["a"].Nodup ∧ ∀ name ∈ ["a"], IsIdentifier name ∧ name ≠ "input") ∧
      ExportFormat.javaScript.renderings [⟨1, [0, 1], root, 2⟩] "decideLogic" ["a"] =
        .ok [javaScript.function "decideLogic" 1 "a" body] ∧
      javaScript.signature? "a" = some ⟨["a"], none⟩ ∧
      ∃ program, javaScript.read? body = some program ∧
        .entry "input" 1 ∈ program.references ∧
        ¬ Signature.Binds ⟨["a"], none⟩ (.entry "input" 1) := by
  intro root body
  have hlegible : ∀ var ∈ root.tests, ((Names.given ["a"]).refer var).IsLegible :=
    fun var _ => Names.isLegible_refer_of_words (by decide) var
  obtain ⟨text, htext, hread⟩ := javaScript.read?_body (d := root) (by decide) hlegible 1
  have hbody : javaScript.style.body (.given ["a"]) 1 root.outline = .ok body := rfl
  rw [Except.ok.inj (htext.symm.trans hbody)] at hread
  refine ⟨by decide, ?_, rfl, _, hread, by decide, ?_⟩
  · rw [ExportFormat.renderings, distinctRenderings, List.map_singleton, List.mergeSort_singleton]
    rfl
  · rintro ⟨hrest, -⟩
    cases hrest

end Language

end Dichotomy
