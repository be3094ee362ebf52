import Dichotomy.Export.JavaScript
import Dichotomy.Export.Python
import Dichotomy.Proofs.Occurrences
import Dichotomy.Proofs.Rearrangement
import Dichotomy.Proofs.Score
import Mathlib.Tactic.IntervalCases

/-!
# Return statements in code

Code for a diagram holds one return statement for each result of its outline.  In the text of the
code they are found by counting the word `return` with the blank behind it, as long as the texts
of the results do not spell that word themselves, nor do their escapes.

## Main statements

- `Diagram.mem_cells_outline`, `Diagram.perm_inputs_outline`: what an outline gives and asks.
- `CodeStyle.CountsReturns.occurrences_body`: the count for any style that writes the word for
  results only.
- `JavaScript.countsReturns`, `Python.countsReturns`: the two styles.
-/

namespace Dichotomy

/-! ## What a diagram and its outline mention -/

namespace Diagram

variable {ι : Type}

/-- The cells of all leaves, high sides first. -/
def cells : Diagram ι → List Cell
  | leaf _ cell => [cell]
  | branch _ _ high low => high.cells ++ low.cells

end Diagram

namespace Outline

variable {ι : Type}

/-- The inputs of all conditions. -/
def inputs : Outline ι → List Int
  | give _ _ => []
  | test _ inputs high low => inputs ++ (high.inputs ++ low.inputs)

/-- The cells of all results, high sides first. -/
def cells : Outline ι → List Cell
  | give _ cell => [cell]
  | test _ _ high low => high.cells ++ low.cells

theorem length_cells (o : Outline ι) : o.cells.length = o.results := by
  induction o with
  | give mark cell => rfl
  | test mark inputs high low ihHigh ihLow =>
    rw [cells, List.length_append, ihHigh, ihLow, results]

theorem mem_cells_guarded {mark : ι} {input : Int} {high low : Outline ι} {cell : Cell} :
    cell ∈ (guarded mark input high low).cells ↔ cell ∈ high.cells ∨ cell ∈ low.cells := by
  unfold guarded
  split
  next highMark inputs high innerMark inner outerMark outer =>
    split
    next h =>
      -- Where tests are joined, the inner fallback is the outer one.
      subst h
      simp [cells]
    next => simp [cells, or_assoc]
  next => simp [cells]

/-- A test in front of an outline asks one more input, on its own or in the condition it joins. -/
theorem perm_inputs_guarded (mark : ι) (input : Int) (high low : Outline ι) :
    (guarded mark input high low).inputs.Perm (input :: (high.inputs ++ low.inputs)) := by
  unfold guarded
  split
  next highMark inputs high innerMark inner outerMark outer =>
    split
    · simpa [Outline.inputs] using (perm_insertAscending input inputs).append_right high.inputs
    · exact .refl _
  next => exact .refl _

end Outline

namespace Diagram

variable {ι : Type}

/-- An outline gives the cells of its diagram. -/
theorem mem_cells_outline {d : Diagram ι} {cell : Cell} :
    cell ∈ d.outline.cells ↔ cell ∈ d.cells := by
  induction d with
  | leaf mark cell => exact Iff.rfl
  | branch mark var high low ihHigh ihLow =>
    rw [outline, Outline.mem_cells_guarded, ihHigh, ihLow, cells, List.mem_append]

/-- An outline asks the inputs that the diagram tests. -/
theorem perm_inputs_outline (d : Diagram ι) : d.outline.inputs.Perm d.tests := by
  induction d with
  | leaf mark cell => exact .refl _
  | branch mark var high low ihHigh ihLow =>
    exact (Outline.perm_inputs_guarded mark var _ _).trans ((ihHigh.append ihLow).cons var)

theorem inputs_outline_subset (d : Diagram ι) : d.outline.inputs ⊆ d.tests :=
  d.perm_inputs_outline.subset

end Diagram

/-! ## Names without a letter -/

/-- The digits of a number are those below the base. -/
theorem exists_digitChar {base : Nat} (hbase : 1 < base) {n : Nat} {c : Char}
    (h : c ∈ Nat.toDigits base n) : ∃ k < base, c = k.digitChar := by
  induction n using Nat.strongRecOn with
  | ind n ih =>
    rw [Nat.toDigits_eq_if hbase] at h
    split at h
    next hlt => exact ⟨n, hlt, List.mem_singleton.mp h⟩
    next hle =>
      rcases List.mem_append.mp h with h | h
      · exact ih _ (Nat.div_lt_self (by omega) hbase) h
      · exact ⟨n % base, Nat.mod_lt n (by omega), List.mem_singleton.mp h⟩

/-- Digits are written without letters from `g` on, so none of them is an `r`. -/
theorem notMem_toDigits {base : Nat} (hbase : 1 < base) (hsmall : base ≤ 16) (n : Nat) :
    'r' ∉ Nat.toDigits base n := by
  intro h
  obtain ⟨k, hk, hr⟩ := exists_digitChar hbase h
  have hlt : k < 16 := by omega
  interval_cases k <;> exact absurd hr (by decide)

/-- An input without a given name is called by its position. -/
theorem nameOf_given_nil {var : Int} (h : 0 ≤ var) :
    (Names.given []).nameOf var = .ok s!"input[{var}]" := by
  have hlt : ¬ var < ((Names.given []).texts.length : Nat) := by
    simp [Names.texts, h]
  rw [Names.nameOf, if_neg hlt]

theorem notMem_position {var : Int} (h : 0 ≤ var) : 'r' ∉ (s!"input[{var}]").toList := by
  obtain ⟨n, rfl⟩ := Int.eq_ofNat_of_zero_le h
  have hrepr : (Int.repr (n : Int)).toList = Nat.toDigits 10 n := Nat.toList_repr
  simp only [String.toList_append, List.mem_append, not_or]
  refine ⟨⟨by decide, ?_⟩, by decide⟩
  show 'r' ∉ (Int.repr (n : Int)).toList
  rw [hrepr]
  exact notMem_toDigits (by decide) (by decide) n

/-- Without given names, a condition over several inputs can always be written. -/
theorem joined_given_nil {between : String} (hbetween : 'r' ∉ between.toList) {vars : List Int}
    (h : ∀ var ∈ vars, 0 ≤ var) :
    ∃ condition, (Names.given []).joined between vars = .ok condition ∧
      'r' ∉ condition.toList := by
  refine ⟨between.intercalate (vars.map fun var => s!"input[{var}]"), ?_, ?_⟩
  · rw [Names.joined, mapM_eq_ok fun var hvar => nameOf_given_nil (h var hvar)]
    rfl
  · induction vars with
    | nil => exact List.not_mem_nil
    | cons var vars ih =>
      have hvar := notMem_position (h var List.mem_cons_self)
      have hrest := ih fun v hv => h v (List.mem_cons_of_mem _ hv)
      cases vars with
      | nil => simpa using hvar
      | cons next vars =>
        rw [List.map_cons] at hrest
        rw [List.map_cons, List.map_cons, String.intercalate_cons_cons, String.toList_append,
          String.toList_append, List.mem_append, List.mem_append, not_or, not_or]
        exact ⟨⟨hvar, hbetween⟩, hrest⟩

/-! ## Counting in any style -/

/-- The word `return` and the blank behind it. -/
def returnWord : List Char := ['r', 'e', 't', 'u', 'r', 'n', ' ']

theorem occurrences_returnWord_append (text : List Char) :
    occurrences returnWord (returnWord ++ text) = 1 + occurrences returnWord text := by
  simp [returnWord, occurrences, List.isPrefixOf]

/-- A style writes the word for results only: conditions and blocks have no `r` of their own, and
    the statement for a counted cell holds the word once. -/
structure CodeStyle.CountsReturns (style : CodeStyle) (counted : Cell → Prop) : Prop where
  indent : 'r' ∉ style.indent.toList
  conjunction : 'r' ∉ style.conjunction.toList
  opening : ∀ condition : String, 'r' ∉ condition.toList →
    'r' ∉ (style.opening condition).toList
  closing : ∀ text, style.closing = some text → 'r' ∉ text.toList
  returning : ∀ cell, counted cell → ∀ more,
    occurrences returnWord ((style.returning (style.value cell)).toList ++ '\n' :: more) =
      1 + occurrences returnWord more

namespace CodeStyle.CountsReturns

variable {ι : Type} {style : CodeStyle} {counted : Cell → Prop}

private theorem occurrences_line (h : style.CountsReturns counted) (level : Nat) (text : String)
    (more : List Char) :
    occurrences returnWord ((style.line level text).toList ++ more) =
      occurrences returnWord (text.toList ++ '\n' :: more) := by
  -- The indentation is passed over.
  have hindent : 'r' ∉ (String.join (List.replicate level style.indent)).toList := by
    rw [String.toList_join, List.mem_flatMap]
    rintro ⟨indent, hmem, hr⟩
    rw [List.eq_of_mem_replicate hmem] at hr
    exact h.indent hr
  have hsplit : (style.line level text).toList ++ more =
      (String.join (List.replicate level style.indent)).toList ++
        (text.toList ++ '\n' :: more) := by
    simp [line, String.toList_append]
  rw [hsplit]
  exact occurrences_append_of_notMem hindent _

private theorem occurrences_line_of_notMem (h : style.CountsReturns counted) (level : Nat)
    {text : String} (htext : 'r' ∉ text.toList) (more : List Char) :
    occurrences returnWord ((style.line level text).toList ++ more) =
      occurrences returnWord more := by
  rw [h.occurrences_line]
  have hskip : occurrences returnWord (text.toList ++ '\n' :: more) =
      occurrences returnWord ('\n' :: more) := occurrences_append_of_notMem htext _
  have hbreak : occurrences returnWord ('\n' :: more) = occurrences returnWord more :=
    occurrences_cons_of_ne (by decide) more
  exact hskip.trans hbreak

/-- **Counting return statements**: code for an outline can be written, and if all its cells are
    counted it holds the word once for each result, whatever text follows. -/
theorem occurrences_body (h : style.CountsReturns counted) (level : Nat) {o : Outline ι}
    (hinputs : ∀ var ∈ o.inputs, 0 ≤ var) :
    ∃ text, style.body (.given []) level o = .ok text ∧
      ((∀ cell ∈ o.cells, counted cell) → ∀ more,
        occurrences returnWord (text.toList ++ more) =
          o.results + occurrences returnWord more) := by
  induction o generalizing level with
  | give mark cell =>
    refine ⟨_, rfl, fun hcells more => ?_⟩
    rw [h.occurrences_line, h.returning cell (hcells cell (by simp [Outline.cells]))]
    rfl
  | test mark inputs high low ihHigh ihLow =>
    have hasked : ∀ var ∈ inputs, 0 ≤ var := fun var hvar =>
      hinputs var (by simp [Outline.inputs, hvar])
    obtain ⟨condition, hcondition, hr⟩ := joined_given_nil h.conjunction hasked
    obtain ⟨block, hblock, hblockCount⟩ := ihHigh (level + 1)
      (fun var hvar => hinputs var (by simp [Outline.inputs, hvar]))
    obtain ⟨rest, hrest, hrestCount⟩ := ihLow level
      (fun var hvar => hinputs var (by simp [Outline.inputs, hvar]))
    simp only [body, hcondition, hblock, hrest]
    refine ⟨_, rfl, fun hcells more => ?_⟩
    have hblockCount := hblockCount fun cell hcell => hcells cell (by simp [Outline.cells, hcell])
    have hrestCount := hrestCount fun cell hcell => hcells cell (by simp [Outline.cells, hcell])
    -- The opening and the closing line are passed over, the block and the rest are counted.
    have hopening := h.opening condition hr
    simp only [String.toList_append, List.append_assoc]
    rw [h.occurrences_line_of_notMem level hopening, hblockCount, Outline.results]
    cases hclosing : style.closing with
    | none =>
      rw [String.toList_empty, List.nil_append, hrestCount]
      omega
    | some text =>
      simp only
      rw [h.occurrences_line_of_notMem level (h.closing text hclosing), hrestCount]
      omega

/-- The same for a diagram, whose score is the number of results. -/
theorem occurrences_bodyOf (h : style.CountsReturns counted) {d : Diagram ι}
    (htests : ∀ var ∈ d.tests, 0 ≤ var) :
    ∃ text, style.bodyOf (.given []) d = .ok text ∧
      ((∀ cell ∈ d.cells, counted cell) → occurrences returnWord text.toList = d.score) := by
  obtain ⟨text, htext, hcount⟩ := h.occurrences_body 1
    (fun var hvar => htests var (d.inputs_outline_subset hvar))
  refine ⟨text, htext, fun hcells => ?_⟩
  have hall := hcount (fun cell hcell => hcells cell (Diagram.mem_cells_outline.mp hcell)) []
  rw [List.append_nil, d.results_outline] at hall
  exact hall

end CodeStyle.CountsReturns

/-! ## The two styles -/

/-- A quoted text is counted like the characters between its quotes. -/
private theorem occurrences_returning_quoted {quote : Char} (hquote : quote ∉ returnWord)
    (chars more : List Char) :
    occurrences returnWord (returnWord ++ quote :: (chars ++ quote :: more)) =
      1 + (occurrences returnWord chars + occurrences returnWord more) := by
  have hfirst : quote ≠ 'r' := fun h => hquote (h ▸ List.mem_cons_self)
  have hopen : occurrences returnWord (quote :: (chars ++ quote :: more)) =
      occurrences returnWord (chars ++ quote :: more) := occurrences_cons_of_ne hfirst _
  have hclose : occurrences returnWord (chars ++ quote :: more) =
      occurrences returnWord chars + occurrences returnWord more :=
    occurrences_append_cons hquote _ _
  rw [occurrences_returnWord_append, hopen, hclose]

/-- Text without an `r` behind the word is passed over. -/
private theorem occurrences_returning_plain {text : List Char} (h : 'r' ∉ text)
    (more : List Char) :
    occurrences returnWord (returnWord ++ (text ++ more)) = 1 + occurrences returnWord more := by
  have hskip : occurrences returnWord (text ++ more) = occurrences returnWord more :=
    occurrences_append_of_notMem h more
  rw [occurrences_returnWord_append, hskip]

namespace JavaScript

private theorem keeps_writeChar : Keeps writeChar returnWord where
  plain := by
    simp [returnWord, writeChar]
  escaped c hc := by
    unfold writeChar
    split
    · exact ⟨_, _, rfl, by decide⟩
    · exact ⟨_, _, rfl, hc⟩

/-- Escaping for a single-quoted literal does not change how often the word occurs. -/
theorem occurrences_escaped (text : String) :
    occurrences returnWord (escaped writeChar text).toList =
      occurrences returnWord text.toList := by
  rw [escaped, String.toList_ofList]
  refine occurrences_flatMap keeps_writeChar ?_ _
  intro c hc hr
  have hne : 'r' ≠ c := fun h => hc (h ▸ List.mem_cons_self)
  unfold writeChar at hr
  split at hr <;> simp_all

/-- Braces, conditions and `null` hold no `r`; a literal is counted by its text. -/
theorem countsReturns :
    style.CountsReturns fun cell =>
      ∀ text, cell = .literal text → occurrences returnWord text.toList = 0 where
  indent := by decide
  conjunction := by decide
  opening condition h := by
    simp [style, String.toList_append, h]
  closing text h := by
    obtain rfl : "\x7d" = text := Option.some.inj h
    decide
  returning cell h more := by
    cases cell with
    | dontCare =>
      have hnull : (style.returning (style.value .dontCare)).toList ++ '\n' :: more =
          returnWord ++ (['n', 'u', 'l', 'l', ';', '\n'] ++ more) := by
        simp [style, value, returnWord]
      rw [hnull]
      exact occurrences_returning_plain (by decide) more
    | literal text =>
      -- Behind the literal there are no letters before the next line.
      have hskip : occurrences returnWord (';' :: '\n' :: more) = occurrences returnWord more :=
        (occurrences_cons_of_ne (by decide) _).trans (occurrences_cons_of_ne (by decide) _)
      have hliteral : (style.returning (style.value (.literal text))).toList ++ '\n' :: more =
          returnWord ++ '\'' :: ((escaped writeChar text).toList ++
            '\'' :: (';' :: '\n' :: more)) := by
        simp [style, value, returnWord, String.toList_append]
      rw [hliteral, occurrences_returning_quoted (by decide), occurrences_escaped, h text rfl, hskip]
      omega

end JavaScript

namespace Python

theorem quoteFor_eq_or (chars : List Char) :
    Quoted.quoteFor chars = '\'' ∨ Quoted.quoteFor chars = '"' := by
  unfold Quoted.quoteFor
  split
  · exact .inr rfl
  · exact .inl rfl

private theorem notMem_hex (width n : Nat) : 'r' ∉ Quoted.hex width n := by
  simp only [Quoted.hex, List.mem_append, List.mem_replicate, not_or]
  exact ⟨fun h => absurd h.2 (by decide), notMem_toDigits (by decide) (by decide) n⟩

private theorem keeps_encodeChar {quote : Char} (hquote : quote = '\'' ∨ quote = '"') :
    Keeps (Quoted.encodeChar quote) returnWord where
  plain := by
    rcases hquote with rfl | rfl <;> simp [returnWord] <;> decide
  escaped c hc := by
    -- Escapes begin with a backslash, and all else is written as it is.
    unfold Quoted.encodeChar
    repeat' split
    all_goals first
      | exact ⟨'\\', _, rfl, by decide⟩
      | exact ⟨_, _, rfl, hc⟩

/-- Quoting does not change how often the word occurs, but for carriage returns: their escape
    ends in the first letter of the word. -/
theorem occurrences_encode {quote : Char} (hquote : quote = '\'' ∨ quote = '"')
    (chars : List Char) :
    occurrences returnWord (chars.flatMap (Quoted.encodeChar quote)) =
      occurrences returnWord chars + occurrences ('\r' :: returnWord.tail) chars := by
  have hcarriage : Quoted.encodeChar quote '\r' = ['\\', 'r'] := by
    rcases hquote with rfl | rfl <;> decide
  refine occurrences_flatMap_odd (keeps_encodeChar hquote) hcarriage (by decide) (by decide) ?_ _
  intro c hc hne hr
  have hfirst : 'r' ≠ c := fun h => hc (h ▸ List.mem_cons_self)
  -- No other escape holds the letter, since hexadecimal digits stop before it.
  unfold Quoted.encodeChar at hr
  repeat' split at hr
  all_goals simp_all [notMem_hex]

/-- Conditions and `None` hold no `r`; a quoted text is counted by its characters. -/
theorem countsReturns :
    style.CountsReturns fun cell => ∀ text, cell = .literal text →
      occurrences returnWord text.toList = 0 ∧
        occurrences ('\r' :: returnWord.tail) text.toList = 0 where
  indent := by decide
  conjunction := by decide
  opening condition h := by
    simp [style, String.toList_append, h]
  closing text h := by cases h
  returning cell h more := by
    cases cell with
    | dontCare =>
      have hnone : (style.returning (style.value .dontCare)).toList ++ '\n' :: more =
          returnWord ++ (['N', 'o', 'n', 'e', '\n'] ++ more) := by
        simp [style, value, returnWord]
      rw [hnone]
      exact occurrences_returning_plain (by decide) more
    | literal text =>
      obtain ⟨hword, hcarriage⟩ := h text rfl
      -- Which quotes are chosen does not matter, as neither of them stands in the word.
      have hquote := quoteFor_eq_or text.toList
      have hskip : occurrences returnWord ('\n' :: more) = occurrences returnWord more :=
        occurrences_cons_of_ne (by decide) _
      have hliteral : (style.returning (style.value (.literal text))).toList ++ '\n' :: more =
          returnWord ++ Quoted.quoteFor text.toList ::
            (text.toList.flatMap (Quoted.encodeChar (Quoted.quoteFor text.toList)) ++
              Quoted.quoteFor text.toList :: ('\n' :: more)) := by
        simp [style, value, quoted, Quoted.encode, returnWord, String.toList_append]
      have hnot : Quoted.quoteFor text.toList ∉ returnWord := by
        rcases hquote with h | h <;> rw [h] <;> decide
      rw [hliteral, occurrences_returning_quoted hnot, occurrences_encode hquote, hword, hcarriage,
        hskip]
      omega

end Python

end Dichotomy
