import Dichotomy.Proofs.Phrases

/-!
# Reading JavaScript

The body of a function is read back from its text.  Phrases end with braces and semicolons, and
how they are spread over lines does not matter.

The reader knows the fragment that is written: blocks under conjunctions of inputs, and return
statements.  A literal goes on to its closing quote, whatever stands between the quotes; which
characters a literal may hold is a question about values, not about the program around them.

## Main statements

- `JavaScript.isReadable`: the style writes phrases that are read back.
- `JavaScript.read?_of_statements`: so is a whole body.
-/

namespace Dichotomy

namespace JavaScript

/-- The tokens of a phrase. -/
def tokens : Phrase → List Token
  | .opens condition =>
    .word "if" :: .symbol "(" :: (conditionTokens (.symbol "&&") condition ++
      [.symbol ")", .symbol "\x7b"])
  | .returns expression => [.word "return", expression, .symbol ";"]
  | .closes => [.symbol "\x7d"]

/-- Whether a token is the last one of a phrase. -/
def endsPhrase (token : Token) : Bool :=
  token = .symbol "\x7b" || token = .symbol "\x7d" || token = .symbol ";"

/-- Reads one phrase. -/
def phrase? : List Token → Option Phrase
  | .word "if" :: .symbol "(" :: rest =>
    (condition? (.symbol "&&") [.symbol ")", .symbol "\x7b"] rest).map .opens
  | [.word "return", expression, .symbol ";"] =>
    if expression.isExpression then some (.returns expression) else none
  | [.symbol "\x7d"] => some .closes
  | _ => none

/-- Reads the body of a function.  The program is put together from phrases wherever they stand. -/
def read? (text : String) : Option Program :=
  ((cutAfter endsPhrase (scan .between text.toList)).mapM phrase?).bind program?

theorem staysQuoted_writeChar (c : Char) : StaysQuoted '\'' (writeChar c) := by
  unfold writeChar
  split
  next => exact .escape c
  next h =>
    simp only [Bool.or_eq_true, decide_eq_true_eq, not_or] at h
    exact .singleton h.2 h.1

/-- An expression is scanned up to the semicolon behind it. -/
theorem scans_value (cell : Cell) : Scans (value cell ++ ";\n").toList
    [style.expression cell, .symbol ";"] := by
  have hend : Scans [';', '\n'] [.symbol ";"] := fun _ => rfl
  cases cell with
  | dontCare => exact fun _ => rfl
  | literal text =>
    have hquoted : StaysQuoted '\'' (escaped writeChar text).toList := by
      rw [escaped, String.toList_ofList]
      exact .flatMap staysQuoted_writeChar _
    have hliteral := (scans_literal (by decide) hquoted).append hend
    have htext : String.ofList ('\'' :: (escaped writeChar text).toList ++ ['\'']) =
        value (.literal text) := by
      rw [← String.toList_inj]
      simp [value, String.toList_append]
    rw [htext] at hliteral
    simpa [value, CodeStyle.expression, style, String.toList_append] using hliteral

theorem isReadable : style.IsReadable tokens phrase? where
  indent c hc := by
    obtain rfl : c = ' ' := by simpa [style] using hc
    decide
  scans phrase h := by
    cases phrase with
    | opens condition =>
      -- The condition ends at the closing bracket, where no word goes on.
      have hconnective : Scans " && ".toList [.symbol "&&"] := fun _ => rfl
      have hif : Scans ['i', 'f', ' ', '('] [.word "if", .symbol "("] := fun _ => rfl
      have hblock : Scans [')', ' ', '\x7b', '\n'] [.symbol ")", .symbol "\x7b"] := fun _ => rfl
      have hcondition := scansUpTo_condition rfl (by decide) hconnective h.1 h.2
      simpa [CodeStyle.phraseText, style, tokens, String.toList_append] using
        hif.append (hcondition.append_cons (by decide) hblock)
    | returns token =>
      obtain ⟨cell, rfl⟩ := h
      have hreturn : Scans "return ".toList [.word "return"] := fun _ => rfl
      rw [style.phraseText_returns]
      simpa [style, tokens, String.toList_append] using hreturn.append (scans_value cell)
    | closes => exact fun _ => rfl
  phrase?_tokens phrase h := by
    cases phrase with
    | opens condition =>
      have hcondition := condition?_tokens (.symbol "&&") [.symbol ")", .symbol "\x7b"] h.1
        (by decide) (by decide) (by decide)
      simp [tokens, phrase?, hcondition]
    | returns token =>
      obtain ⟨cell, rfl⟩ := h
      simp [tokens, phrase?, style.isExpression_expression]
    | closes => rfl

/-- The tokens of a phrase end where it ends. -/
theorem isPiece_tokens {closed : Bool} {phrase : Phrase}
    (h : phrase.IsLegible style.expression closed) : IsPiece endsPhrase (tokens phrase) := by
  cases phrase with
  | opens condition =>
    refine ⟨.word "if" :: .symbol "(" :: (conditionTokens (.symbol "&&") condition ++
      [.symbol ")"]), .symbol "\x7b", by simp [tokens], ?_, rfl⟩
    -- Before the brace there are words, round and square brackets and operators only.
    intro token htoken
    simp only [List.mem_cons, List.mem_append, List.not_mem_nil, or_false] at htoken
    rcases htoken with rfl | rfl | htoken | rfl
    · rfl
    · rfl
    · rcases of_mem_conditionTokens htoken with rfl | ⟨text, rfl⟩ | rfl | rfl <;> rfl
    · rfl
  | returns token =>
    obtain ⟨cell, rfl⟩ := h
    refine ⟨[.word "return", style.expression cell], .symbol ";", rfl, ?_, rfl⟩
    intro token htoken
    simp only [List.mem_cons, List.not_mem_nil, or_false] at htoken
    rcases htoken with rfl | rfl
    · rfl
    · cases cell <;> rfl
  | closes => exact ⟨[], _, rfl, fun _ h => absurd h List.not_mem_nil, rfl⟩

/-- Phrases written line by line are read back. -/
theorem read?_of_statements {text : String} {statements : List (Nat × Phrase)}
    (htext : text.toList = statements.flatMap style.statementText)
    (h : ∀ statement ∈ statements, statement.2.IsLegible style.expression true) :
    read? text = program? (statements.map (·.2)) := by
  have hscan : Scans (statements.flatMap style.statementText)
      (statements.flatMap fun statement => tokens statement.2) :=
    Scans.flatMap fun statement hmem => isReadable.scans_statementText (h statement hmem)
  have hcut : cutAfter endsPhrase (statements.flatMap fun statement => tokens statement.2) =
      statements.map fun statement => tokens statement.2 :=
    cutAfter_flatMap fun statement hmem => isPiece_tokens (h statement hmem)
  have hphrases : (statements.map fun statement => tokens statement.2).mapM phrase? =
      some (statements.map (·.2)) :=
    mapM_map_eq_some fun statement hmem => isReadable.phrase?_tokens _ (h statement hmem)
  rw [read?, htext, hscan.scan_eq, hcut, hphrases]
  rfl

end JavaScript

end Dichotomy
