import Dichotomy.Diagram.Outline
import Dichotomy.Names
import Dichotomy.Proofs.OpeningAnswers
import Dichotomy.Proofs.Tokens

/-!
# Programs of conditions and returns

A program is a sequence of blocks under conditions and of return statements.  Code reaches it as
phrases, one for each line: the opening of a block, a return statement, the closing of a block.
Where blocks are closed by indentation alone, the closings are put in first.

## Main statements

- `program?_statements`, `layout_statements`: the phrases of an outline are put together to the
  program of the outline, whether blocks are closed by phrases or by indentation.
- `Diagram.run_program`: the program of a diagram's outline returns what the diagram gives.
-/

namespace Dichotomy

/-- An input as a condition mentions it. -/
inductive Reference where
  /-- A variable. -/
  | name (text : String)
  /-- An entry of a list. -/
  | entry (list : String) (index : Nat)
  deriving DecidableEq

/-- One phrase of code. -/
inductive Phrase where
  /-- Opens a block that is entered if all of the inputs are true. -/
  | opens (condition : List Reference)
  /-- Returns the value of an expression. -/
  | returns (expression : Token)
  /-- Closes a block. -/
  | closes
  deriving DecidableEq

/-- A program: what is done first, and what follows. -/
inductive Program where
  /-- The end of a block. -/
  | finish
  /-- Returns an expression. -/
  | returns (expression : String) (rest : Program)
  /-- Goes through a block if all of the inputs are true, and then goes on. -/
  | guarded (condition : List Reference) (block rest : Program)
  deriving DecidableEq

/-! ## Running -/

/-- What a reference stands for where a function with these parameters is called.  Without named
    parameters, the list `input` holds all arguments. -/
def Reference.value? (parameters : List String) (arguments : List Bool) : Reference → Option Bool
  | .name text => if parameters.isEmpty then none else (parameters.zip arguments).lookup text
  | .entry list index => if parameters.isEmpty && list = "input" then arguments[index]? else none

namespace Program

/-- Whether all inputs of a condition are true; they are looked up from the first on, up to one
    that is false. -/
def holds (values : Reference → Option Bool) : List Reference → Except Reference Bool
  | [] => .ok true
  | reference :: rest =>
    match values reference with
    | none => .error reference
    | some false => .ok false
    | some true => holds values rest

/-- Runs a program: the returned expression, or nothing if the end is reached.  A reference
    without a value is an error. -/
def run (values : Reference → Option Bool) : Program → Except Reference (Option String)
  | finish => .ok none
  | returns expression _ => .ok (some expression)
  | guarded condition block rest =>
    match holds values condition with
    | .error reference => .error reference
    | .ok false => rest.run values
    | .ok true =>
      match block.run values with
      | .ok none => rest.run values
      | result => result

/-- Calls a function whose body is the program. -/
def call (parameters : List String) (arguments : List Bool) (body : Program) :
    Except Reference (Option String) :=
  body.run (Reference.value? parameters arguments)

end Program

/-! ## Putting phrases together -/

/-- Puts one phrase in front of the programs that have been read behind it, the innermost first:
    a block ends where it is closed, and is complete where it is opened. -/
def Phrase.before : Phrase → List Program → Option (List Program)
  | returns expression, rest :: outer => some (.returns expression.text rest :: outer)
  | closes, outer => some (.finish :: outer)
  | opens condition, block :: rest :: outer => some (.guarded condition block rest :: outer)
  | _, _ => none

/-- The programs behind the opening phrases that are missing, the innermost first. -/
def programs? : List Phrase → Option (List Program)
  | [] => some [.finish]
  | phrase :: rest => (programs? rest).bind phrase.before

/-- The program that phrases spell, if each block is opened and closed. -/
def program? (phrases : List Phrase) : Option Program :=
  match programs? phrases with
  | some [program] => some program
  | _ => none

/-- Whether the phrase begins a block. -/
def Phrase.isOpening : Phrase → Bool
  | opens _ => true
  | _ => false

/-- Closes blocks by indentation.  `columns` are the indentations of the blocks that are open, the
    innermost first, and `opened` says that a deeper block has to begin. -/
def layout (opened : Bool) (columns : List Nat) : List (Nat × Phrase) → Option (List Phrase)
  | [] => if opened then none else some (List.replicate (columns.length - 1) .closes)
  | (column, phrase) :: rest =>
    if opened then
      if columns.head?.all (· < column) then
        (layout phrase.isOpening (column :: columns) rest).map (phrase :: ·)
      else none
    else
      let kept := columns.dropWhile (column < ·)
      if kept.head? = some column then
        (layout phrase.isOpening kept rest).map fun phrases =>
          List.replicate (columns.length - kept.length) .closes ++ phrase :: phrases
      else none

/-! ## The phrases of an outline -/

variable {ι : Type} (refer : Int → Reference) (expression : Cell → Token)

namespace Outline

/-- The phrases of an outline, each with its level of indentation. -/
def statements (closed : Bool) (level : Nat) : Outline ι → List (Nat × Phrase)
  | give _ cell => [(level, .returns (expression cell))]
  | test _ inputs high low =>
    (level, .opens (inputs.map refer)) ::
      (high.statements closed (level + 1) ++
        ((if closed then [(level, Phrase.closes)] else []) ++ low.statements closed level))

/-- The program of an outline, in front of what follows it. -/
def program : Outline ι → Program → Program
  | give _ cell, next => .returns (expression cell).text next
  | test _ inputs high low, next =>
    .guarded (inputs.map refer) (high.program .finish) (low.program next)

/-- Phrases that close their blocks are put together to the program of the outline. -/
theorem programs?_statements (level : Nat) (o : Outline ι) {phrases : List Phrase}
    {next : Program} {outer : List Program} (h : programs? phrases = some (next :: outer)) :
    programs? ((o.statements refer expression true level).map (·.2) ++ phrases) =
      some (o.program refer expression next :: outer) := by
  induction o generalizing level phrases next outer with
  | give mark cell => simp [statements, programs?, h, Phrase.before, program]
  | test mark inputs high low ihHigh ihLow =>
    -- From the back: what follows the block, its end, the block, and the phrase that opens it.
    have hlow := ihLow level h
    have hcloses : programs? (.closes :: ((low.statements refer expression true level).map (·.2) ++
        phrases)) = some (.finish :: low.program refer expression next :: outer) := by
      rw [programs?, hlow]
      rfl
    have hhigh := ihHigh (level + 1) hcloses
    simp only [statements, if_true, List.map_cons, List.map_append,
      List.cons_append, List.nil_append, List.append_assoc]
    rw [programs?, hhigh]
    rfl

theorem program?_statements (level : Nat) (o : Outline ι) :
    program? ((o.statements refer expression true level).map (·.2)) =
      some (o.program refer expression .finish) := by
  have h : programs? [] = some [.finish] := rfl
  have hall := o.programs?_statements refer expression level h
  rw [List.append_nil] at hall
  rw [program?, hall]

end Outline

/-! ### Closing by indentation -/

/-- A line stands in the block of its own column, or begins a deeper one where that is due. -/
def Enters (opened : Bool) (columns : List Nat) (column : Nat) (outer : List Nat) : Prop :=
  (opened = false ∧ columns = column :: outer) ∨
    (opened = true ∧ columns = outer ∧ outer.head?.all (· < column) = true)

/-- Such a line closes nothing. -/
theorem Enters.layout_cons {opened : Bool} {columns outer : List Nat} {column : Nat}
    (h : Enters opened columns column outer) (phrase : Phrase) (rest : List (Nat × Phrase)) :
    layout opened columns ((column, phrase) :: rest) =
      (layout phrase.isOpening (column :: outer) rest).map (phrase :: ·) := by
  rcases h with ⟨rfl, rfl⟩ | ⟨rfl, rfl, hdeeper⟩
  · simp [layout]
  · simp [layout, hdeeper]

/-- A line of the block around closes the innermost block. -/
theorem layout_dedent {column inner : Nat} (h : column < inner) (outer : List Nat)
    (phrase : Phrase) (rest : List (Nat × Phrase)) :
    layout false (inner :: column :: outer) ((column, phrase) :: rest) =
      (layout false (column :: outer) ((column, phrase) :: rest)).map (Phrase.closes :: ·) := by
  simp [layout, h, Function.comp_def]

namespace Outline

/-- Every outline begins with a line at its own level. -/
theorem exists_statements_eq (closed : Bool) (level : Nat) (o : Outline ι) :
    ∃ phrase rest, o.statements refer expression closed level = (level, phrase) :: rest := by
  cases o <;> exact ⟨_, _, rfl⟩

/-- Closing by indentation gives the phrases of the outline, if each level is `width` columns. -/
theorem layout_statements_append {width : Nat} (hwidth : 0 < width) (level : Nat) (o : Outline ι)
    {opened : Bool} {columns outer : List Nat} (h : Enters opened columns (width * level) outer)
    (rest : List (Nat × Phrase)) :
    layout opened columns
        ((o.statements refer expression false level).map (Prod.map (width * ·) id) ++ rest) =
      (layout false (width * level :: outer) rest).map
        ((o.statements refer expression true level).map (·.2) ++ ·) := by
  induction o generalizing level opened columns outer rest with
  | give mark cell => exact h.layout_cons _ rest
  | test mark inputs high low ihHigh ihLow =>
    -- The block of the high side is one level deeper, and the low side closes it.
    have hdeeper : Enters true (width * level :: outer) (width * (level + 1))
        (width * level :: outer) := .inr ⟨rfl, rfl, by simp [hwidth]⟩
    obtain ⟨phrase, more, hlow⟩ := low.exists_statements_eq refer expression false level
    have hdedent : layout false (width * (level + 1) :: width * level :: outer)
        ((low.statements refer expression false level).map (Prod.map (width * ·) id) ++ rest) =
          (layout false (width * level :: outer) rest).map fun phrases =>
            .closes :: ((low.statements refer expression true level).map (·.2) ++ phrases) := by
      -- The first line of the low side closes the block, and the rest goes on where it stands.
      have hsame : Enters false (width * level :: outer) (width * level) outer :=
        .inl ⟨rfl, rfl⟩
      have hrest := ihLow level hsame rest
      rw [hlow, List.map_cons, Prod.map_apply, List.cons_append] at hrest ⊢
      rw [layout_dedent (by simp [hwidth]) outer, hrest, Option.map_map]
      rfl
    have hhigh := ihHigh (level + 1) hdeeper
      ((low.statements refer expression false level).map (Prod.map (width * ·) id) ++ rest)
    simp only [statements, List.map_cons, List.map_append, List.cons_append, List.append_assoc,
      List.nil_append, if_true, Bool.false_eq_true, if_false] at hhigh ⊢
    rw [Prod.map, h.layout_cons]
    simp only [id, Phrase.isOpening, hhigh, hdedent, Option.map_map, Function.comp_def]

theorem layout_statements {width : Nat} (hwidth : 0 < width) (level : Nat) (o : Outline ι) :
    layout true [] ((o.statements refer expression false level).map (Prod.map (width * ·) id)) =
      some ((o.statements refer expression true level).map (·.2)) := by
  have hfirst : Enters true [] (width * level) [] := .inr ⟨rfl, rfl, rfl⟩
  have hall := o.layout_statements_append refer expression hwidth level hfirst []
  simpa [layout] using hall

end Outline

/-! ## Running the program of an outline -/

/-- A condition holds if all of its inputs are true. -/
theorem Program.holds_map {values : Reference → Option Bool} {refer : Int → Reference}
    {a : Assignment} {inputs : List Int}
    (h : ∀ var ∈ inputs, values (refer var) = some (a.value var)) :
    holds values (inputs.map refer) = .ok (inputs.all a.value) := by
  induction inputs with
  | nil => rfl
  | cons var inputs ih =>
    have hrest := ih fun v hv => h v (List.mem_cons_of_mem _ hv)
    rw [List.map_cons, holds, h var List.mem_cons_self, List.all_cons]
    cases a.value var with
    | true => exact hrest
    | false => rfl

/-- **Running**: wherever its inputs have the values of a covering assignment, the program of a
    diagram returns the expression of the cell that the diagram gives. -/
theorem Diagram.run_program (refer : Int → Reference) (expression : Cell → Token)
    {values : Reference → Option Bool} {a : Assignment} {d : Diagram ι} (hcovers : a.Covers d)
    (h : ∀ var ∈ d.tests, values (refer var) = some (a.value var)) (next : Program) :
    ∃ cell, d.eval a = .ok cell ∧
      (d.outline.program refer expression next).run values =
        .ok (some (expression cell).text) := by
  induction d using opening_induction generalizing next with
  | give d cell hopening =>
    rw [eval_of_give hopening hcovers, outline_eq, hopening]
    exact ⟨cell, rfl, rfl⟩
  | ask d inputs high low hopening ihHigh ihLow =>
    obtain ⟨-, hhighCovers, hlowCovers⟩ := covers_opening hopening hcovers
    have htests := tests_opening_subset hopening
    have hholds : Program.holds values (inputs.map refer) = .ok (inputs.all a.value) :=
      Program.holds_map fun var hvar => h var (htests (List.mem_append_left _ hvar))
    rw [eval_of_ask hopening hcovers, outline_eq, hopening]
    simp only [Outline.program, Program.run, hholds]
    cases inputs.all a.value with
    | true =>
      -- The block returns, so what follows it is not reached.
      obtain ⟨cell, heval, hrun⟩ := ihHigh hhighCovers
        (fun var hvar => h var (htests (List.mem_append_right _ (List.mem_append_left _ hvar))))
        .finish
      exact ⟨cell, heval, by rw [hrun]⟩
    | false =>
      exact ihLow hlowCovers
        (fun var hvar => h var (htests (List.mem_append_right _ (List.mem_append_right _ hvar))))
        next

end Dichotomy
