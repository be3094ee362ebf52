import Dichotomy.Proofs.Phrases

/-!
# Reading Python

The body of a function is read back from its text.  Every phrase stands on a line of its own, and
blocks end where the indentation goes back.

The reader knows the fragment that is written: blocks under conjunctions of inputs, and return
statements.

## Main statements

- `Python.isReadable`: the style writes phrases that are read back.
- `Python.read?_of_statements`: so is a whole body.
-/

namespace Dichotomy

namespace Python

/-- The tokens of a phrase. -/
def tokens : Phrase → List Token
  | .opens condition => .word "if" :: (conditionTokens (.word "and") condition ++ [.symbol ":"])
  | .returns expression => [.word "return", expression]
  | .closes => []

/-- Reads one phrase. -/
def phrase? : List Token → Option Phrase
  | .word "if" :: rest => (condition? (.word "and") [.symbol ":"] rest).map .opens
  | [.word "return", expression] =>
    if expression.isExpression then some (.returns expression) else none
  | _ => none

/-- Whether a character ends a line. -/
def endsLine (c : Char) : Bool := c = '\n' || c = '\r'

/-- Reads one line: its indentation and its phrase. -/
def line? (line : List Char) : Option (Nat × Phrase) :=
  (phrase? (scan .between line)).map ((line.takeWhile (· = ' ')).length, ·)

/-- Reads the body of a function.  Lines without tokens are passed over. -/
def read? (text : String) : Option Program := do
  let lines := (cutAfter endsLine text.toList).filter fun line => !(scan .between line).isEmpty
  program? (← layout true [] (← lines.mapM line?))

/-! ### Quoted texts -/

/-- Hexadecimal digits neither close a literal nor escape anything. -/
theorem of_mem_hex {width n : Nat} {c : Char} (h : c ∈ Quoted.hex width n) :
    CharKind.of c = .word := by
  rcases List.mem_append.mp h with h | h
  · obtain rfl := List.eq_of_mem_replicate h
    decide
  · obtain ⟨k, hk, rfl⟩ := exists_digitChar (by decide) h
    interval_cases k <;> decide

theorem staysQuoted_hex {quote : Char} (hquote : CharKind.of quote = .quote) (kind : Char)
    (width n : Nat) : StaysQuoted quote ('\\' :: kind :: Quoted.hex width n) := by
  refine (StaysQuoted.escape kind).append (.of_forall fun c hc => ?_)
  have hword := of_mem_hex hc
  constructor
  · rintro rfl
    rw [hquote] at hword
    cases hword
  · rintro rfl
    exact absurd hword (by decide)

theorem staysQuoted_encodeChar {quote : Char} (hquote : CharKind.of quote = .quote) (c : Char) :
    StaysQuoted quote (Quoted.encodeChar quote c) := by
  unfold Quoted.encodeChar
  split
  next => exact .escape c
  next hplain =>
    simp only [Bool.or_eq_true, decide_eq_true_eq, not_or] at hplain
    repeat' split
    · exact .escape 't'
    · exact .escape 'n'
    · exact .escape 'r'
    · exact .singleton hplain.1 hplain.2
    · exact staysQuoted_hex hquote 'x' 2 _
    · exact staysQuoted_hex hquote 'u' 4 _
    · exact staysQuoted_hex hquote 'U' 8 _

theorem of_quoteFor (chars : List Char) : CharKind.of (Quoted.quoteFor chars) = .quote := by
  rcases quoteFor_eq_or chars with h | h <;> rw [h] <;> decide

/-- An expression is scanned up to the end of its line. -/
theorem scans_value (cell : Cell) : Scans (value cell ++ "\n").toList [style.expression cell] := by
  have hend : Scans ['\n'] [] := fun _ => rfl
  cases cell with
  | dontCare => exact fun _ => rfl
  | literal text =>
    have hquote := of_quoteFor text.toList
    have hquoted : StaysQuoted (Quoted.quoteFor text.toList)
        (text.toList.flatMap (Quoted.encodeChar (Quoted.quoteFor text.toList))) :=
      .flatMap (staysQuoted_encodeChar hquote) _
    have hliteral := (scans_literal hquote hquoted).append hend
    simpa [value, quoted, Quoted.encode, CodeStyle.expression, style, String.toList_append]
      using hliteral

theorem isReadable : style.IsReadable tokens phrase? where
  indent c hc := by
    obtain rfl : c = ' ' := by simpa [style] using hc
    decide
  scans phrase h := by
    cases phrase with
    | opens condition =>
      -- The condition ends at the colon, where no word goes on.
      have hconnective : Scans " and ".toList [.word "and"] := fun _ => rfl
      have hif : Scans ['i', 'f', ' '] [.word "if"] := fun _ => rfl
      have hblock : Scans [':', '\n'] [.symbol ":"] := fun _ => rfl
      have hcondition := scansUpTo_condition rfl (by decide) hconnective h.1 h.2
      simpa [CodeStyle.phraseText, style, tokens, String.toList_append] using
        hif.append (hcondition.append_cons (by decide) hblock)
    | returns token =>
      obtain ⟨cell, rfl⟩ := h
      have hreturn : Scans "return ".toList [.word "return"] := fun _ => rfl
      rw [style.phraseText_returns]
      simpa [style, tokens, String.toList_append] using hreturn.append (scans_value cell)
    | closes => cases h
  phrase?_tokens phrase h := by
    cases phrase with
    | opens condition =>
      have hcondition := condition?_tokens (.word "and") [.symbol ":"] h.1
        (by decide) (by decide) (by decide)
      simp [tokens, phrase?, hcondition]
    | returns token =>
      obtain ⟨cell, rfl⟩ := h
      simp [tokens, phrase?, style.isExpression_expression]
    | closes => cases h

/-! ### Lines -/

/-- Only blanks end a line. -/
theorem endsLine_of_kind {c : Char} (h : CharKind.of c ≠ .blank) : endsLine c = false := by
  rw [Bool.eq_false_iff]
  intro hends
  have hcases : c = '\n' ∨ c = '\r' := by simpa [endsLine] using hends
  rcases hcases with rfl | rfl <;> exact h (by decide)

theorem endsLine_encodeChar {quote : Char} (hquote : CharKind.of quote = .quote) {c d : Char}
    (h : d ∈ Quoted.encodeChar quote c) : endsLine d = false := by
  have hquoted : endsLine quote = false := endsLine_of_kind (by rw [hquote]; decide)
  unfold Quoted.encodeChar at h
  split at h
  next hspecial =>
    have hc : endsLine c = false := by
      simp only [Bool.or_eq_true, decide_eq_true_eq] at hspecial
      rcases hspecial with rfl | rfl
      · exact hquoted
      · rfl
    simp only [List.mem_cons, List.not_mem_nil, or_false] at h
    rcases h with rfl | rfl
    · rfl
    · exact hc
  next =>
    have hslash : endsLine '\\' = false := rfl
    have hhex : ∀ width n, d ∈ Quoted.hex width n → endsLine d = false := fun width n hd =>
      endsLine_of_kind (by rw [of_mem_hex hd]; decide)
    -- Line breaks have escapes of their own, so they are not among the characters that stay.
    repeat' split at h
    all_goals simp only [List.mem_cons, List.not_mem_nil, or_false] at h
    · rcases h with rfl | rfl <;> rfl
    · rcases h with rfl | rfl <;> rfl
    · rcases h with rfl | rfl <;> rfl
    · subst h
      simp_all [endsLine]
    · rcases h with rfl | rfl | h
      · rfl
      · rfl
      · exact hhex _ _ h
    · rcases h with rfl | rfl | h
      · rfl
      · rfl
      · exact hhex _ _ h
    · rcases h with rfl | rfl | h
      · rfl
      · rfl
      · exact hhex _ _ h

theorem endsLine_value {cell : Cell} {c : Char} (h : c ∈ (value cell).toList) :
    endsLine c = false := by
  cases cell with
  | dontCare =>
    have hall : ∀ d ∈ (value .dontCare).toList, endsLine d = false := by simp [value, endsLine]
    exact hall c h
  | literal text =>
    have hquote := of_quoteFor text.toList
    rw [value, quoted, String.toList_ofList, Quoted.encode, List.mem_append, List.mem_cons,
      List.mem_singleton] at h
    have hmark : endsLine (Quoted.quoteFor text.toList) = false :=
      endsLine_of_kind (by rw [hquote]; decide)
    -- The quotes around it, and the escaped text between them.
    rcases h with (rfl | h) | rfl
    · exact hmark
    · obtain ⟨d, -, hd⟩ := List.mem_flatMap.mp h
      exact endsLine_encodeChar hquote hd
    · exact hmark

theorem endsLine_reference {reference : Reference} (h : reference.IsLegible) {c : Char}
    (hc : c ∈ reference.text.toList) : endsLine c = false := by
  have hword : ∀ {text : String}, IsIdentifier text → c ∈ text.toList → endsLine c = false :=
    fun htext hmem => endsLine_of_kind (by rw [htext.2 c hmem]; decide)
  cases reference with
  | name text => exact hword h hc
  | entry list index =>
    simp only [Reference.text, String.toList_append, List.mem_append] at hc
    rcases hc with ((hc | hc) | hc) | hc
    · exact hword h hc
    · obtain rfl : c = '[' := by simpa using hc
      rfl
    · exact hword (isIdentifier_repr index) hc
    · obtain rfl : c = ']' := by simpa using hc
      rfl

/-- A phrase is written on one line, which begins with a letter. -/
theorem exists_phraseText {phrase : Phrase} (h : phrase.IsLegible style.expression false) :
    ∃ first rest, (style.phraseText phrase).toList = first :: rest ∧ first ≠ ' ' ∧
      ∀ c ∈ first :: rest, endsLine c = false := by
  cases phrase with
  | opens condition =>
    refine ⟨'i', 'f' :: ' ' :: ((" and ".intercalate (condition.map Reference.text)).toList ++
      [':']), by simp [CodeStyle.phraseText, style, String.toList_append], by decide, ?_⟩
    intro c hc
    simp only [List.mem_cons, List.mem_append, List.not_mem_nil, or_false,
      String.toList_intercalate] at hc
    rcases hc with rfl | rfl | rfl | hc | rfl
    · rfl
    · rfl
    · rfl
    · rcases mem_intercalate hc with hc | ⟨chars, hchars, hc⟩
      · have hall : ∀ d ∈ " and ".toList, endsLine d = false := by simp [endsLine]
        exact hall c hc
      · simp only [List.map_map, List.mem_map, Function.comp_apply] at hchars
        obtain ⟨reference, hreference, rfl⟩ := hchars
        exact endsLine_reference (h.2 reference hreference) hc
    · rfl
  | returns token =>
    obtain ⟨cell, rfl⟩ := h
    rw [style.phraseText_returns]
    refine ⟨'r', "eturn ".toList ++ (value cell).toList, by simp [style, String.toList_append],
      by decide, ?_⟩
    intro c hc
    rcases List.mem_cons.mp hc with rfl | hc
    · rfl
    rcases List.mem_append.mp hc with hc | hc
    · have hall : ∀ d ∈ "eturn ".toList, endsLine d = false := by simp [endsLine]
      exact hall c hc
    · exact endsLine_value hc
  | closes => cases h

theorem toList_indent (level : Nat) :
    (String.join (List.replicate level style.indent)).toList = List.replicate (4 * level) ' ' := by
  rw [String.toList_join]
  induction level with
  | zero => rfl
  | succ level ih =>
    rw [List.replicate_succ, List.flatMap_cons, ih, Nat.mul_succ, Nat.add_comm,
      List.replicate_add]
    rfl

/-- A statement is written as one line, indented by four columns for each level. -/
theorem exists_statementText {statement : Nat × Phrase}
    (h : statement.2.IsLegible style.expression false) :
    IsPiece endsLine (style.statementText statement) ∧
      ((style.statementText statement).takeWhile (· = ' ')).length = 4 * statement.1 := by
  obtain ⟨first, rest, htext, hfirst, hline⟩ := exists_phraseText h
  have hall : style.statementText statement =
      List.replicate (4 * statement.1) ' ' ++ (first :: rest) ++ ['\n'] := by
    rw [CodeStyle.statementText, CodeStyle.line, String.toList_append, String.toList_append,
      toList_indent, htext]
    rfl
  constructor
  · refine ⟨_, '\n', hall, fun c hc => ?_, rfl⟩
    rcases List.mem_append.mp hc with hc | hc
    · obtain rfl := List.eq_of_mem_replicate hc
      rfl
    · exact hline c hc
  · have hblanks : ∀ c ∈ List.replicate (4 * statement.1) ' ', decide (c = ' ') = true :=
      fun c hc => decide_eq_true (List.eq_of_mem_replicate hc)
    rw [hall, List.append_assoc, List.takeWhile_append_of_pos hblanks]
    simp [hfirst]

/-- Statements written line by line are read back. -/
theorem read?_of_statements {text : String} {statements : List (Nat × Phrase)}
    (htext : text.toList = statements.flatMap style.statementText)
    (h : ∀ statement ∈ statements, statement.2.IsLegible style.expression false) :
    read? text = (layout true [] (statements.map (Prod.map (4 * ·) id))).bind program? := by
  have hscan : ∀ statement ∈ statements,
      scan .between (style.statementText statement) = tokens statement.2 :=
    fun statement hmem => (isReadable.scans_statementText (h statement hmem)).scan_eq
  have hcut : cutAfter endsLine (statements.flatMap style.statementText) =
      statements.map style.statementText :=
    cutAfter_flatMap fun statement hmem => (exists_statementText (h statement hmem)).1
  -- Every line has tokens, so none is passed over.
  have hfilter : ((statements.map style.statementText).filter fun line =>
      !(scan .between line).isEmpty) = statements.map style.statementText := by
    rw [List.filter_eq_self]
    intro line hline
    obtain ⟨statement, hmem, rfl⟩ := List.mem_map.mp hline
    rw [hscan statement hmem]
    have hlegible := h statement hmem
    cases hphrase : statement.2 with
    | opens condition => rfl
    | returns token => rfl
    | closes =>
      rw [hphrase] at hlegible
      cases hlegible
  have hlines : (statements.map style.statementText).mapM line? =
      some (statements.map (Prod.map (4 * ·) id)) := by
    refine mapM_map_eq_some fun statement hmem => ?_
    rw [line?, hscan statement hmem, isReadable.phrase?_tokens _ (h statement hmem),
      (exists_statementText (h statement hmem)).2]
    rfl
  simp only [read?, htext, hcut, hfilter, hlines]
  rfl

end Python

end Dichotomy
