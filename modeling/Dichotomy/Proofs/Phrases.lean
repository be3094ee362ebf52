import Dichotomy.Proofs.CodeReturns
import Dichotomy.Proofs.Program

/-!
# Phrases of generated code

Code is read back from its text in steps: characters are scanned into tokens, tokens are cut into
phrases, and phrases are put together to a program.  This is what the readers of all styles have
in common: conditions, which are written and read reference by reference, and what a style has to
keep to so that its phrases can be read back.

An expression is one token, kept as it is written.

## Main statements

- `condition?_tokens`, `scansUpTo_condition`: conditions are read back.
- `CodeStyle.exists_body`: code for a diagram is written phrase by phrase.
- `CodeStyle.IsReadable`: phrases of a style are read back.
-/

namespace Dichotomy

/-! ## Cutting -/

/-- Cuts a list behind each entry that satisfies a test. -/
def cutAfter {α : Type} (p : α → Bool) : List α → List (List α)
  | [] => []
  | x :: xs =>
    if p x then [x] :: cutAfter p xs
    else
      match cutAfter p xs with
      | [] => [[x]]
      | piece :: pieces => (x :: piece) :: pieces

/-- A list is a piece if its last entry alone satisfies the test. -/
def IsPiece {α : Type} (p : α → Bool) (xs : List α) : Prop :=
  ∃ init last, xs = init ++ [last] ∧ (∀ x ∈ init, p x = false) ∧ p last = true

section Cutting

variable {α β : Type} {p : α → Bool}

theorem cutAfter_append {piece : List α} (h : IsPiece p piece) (xs : List α) :
    cutAfter p (piece ++ xs) = piece :: cutAfter p xs := by
  obtain ⟨init, last, rfl, hinit, hlast⟩ := h
  induction init with
  | nil => simp [cutAfter, hlast]
  | cons x init ih =>
    have hrest := ih fun y hy => hinit y (List.mem_cons_of_mem _ hy)
    rw [List.cons_append, List.cons_append, cutAfter, hrest]
    simp [hinit x List.mem_cons_self]

/-- Pieces written one after the other are found again. -/
theorem cutAfter_flatMap {write : β → List α} {xs : List β} (h : ∀ x ∈ xs, IsPiece p (write x)) :
    cutAfter p (xs.flatMap write) = xs.map write := by
  induction xs with
  | nil => rfl
  | cons x xs ih =>
    rw [List.flatMap_cons, cutAfter_append (h x List.mem_cons_self),
      ih fun y hy => h y (List.mem_cons_of_mem _ hy), List.map_cons]

end Cutting

/-- Entries are read one by one. -/
theorem mapM_map_eq_some {α β γ : Type} {write : α → β} {read? : β → Option γ} {f : α → γ}
    {xs : List α} (h : ∀ x ∈ xs, read? (write x) = some (f x)) :
    (xs.map write).mapM read? = some (xs.map f) := by
  induction xs with
  | nil => rfl
  | cons x xs ih =>
    rw [List.map_cons, List.mapM_cons, h x List.mem_cons_self,
      ih fun y hy => h y (List.mem_cons_of_mem _ hy)]
    rfl

/-- What lists written with a separator hold is in the separator or in one of them. -/
theorem mem_intercalate {α : Type} {separator : List α} {lists : List (List α)} {x : α}
    (h : x ∈ separator.intercalate lists) : x ∈ separator ∨ ∃ xs ∈ lists, x ∈ xs := by
  induction lists with
  | nil => cases h
  | cons first lists ih =>
    cases lists with
    | nil => exact .inr ⟨first, List.mem_cons_self, by simpa [List.intercalate] using h⟩
    | cons second lists =>
      rw [List.intercalate_cons_cons, List.mem_append, List.mem_append] at h
      rcases h with (h | h) | h
      · exact .inr ⟨first, List.mem_cons_self, h⟩
      · exact .inl h
      · exact (ih h).imp_right fun ⟨xs, hxs, hx⟩ => ⟨xs, List.mem_cons_of_mem _ hxs, hx⟩

/-! ## References -/

/-- A text that is read as one word. -/
def IsIdentifier (text : String) : Prop :=
  text ≠ "" ∧ ∀ c ∈ text.toList, CharKind.of c = .word

instance (text : String) : Decidable (IsIdentifier text) :=
  decidable_of_iff (text ≠ "" ∧ text.toList.all (CharKind.of · = .word) = true)
    (by simp [IsIdentifier])

/-- The number that decimal digits stand for. -/
def numeral? (text : String) : Option Nat :=
  if text.toList.all Char.isDigit then some (Nat.ofDigitChars 10 text.toList 0) else none

theorem numeral?_repr (n : Nat) : numeral? n.repr = some n := by
  have hdigits : n.repr.toList.all Char.isDigit = true := by
    rw [Nat.toList_repr, List.all_eq_true]
    exact fun c hc => Nat.isDigit_of_mem_toDigits (by decide) (by decide) hc
  rw [numeral?, if_pos hdigits, Nat.toList_repr, Nat.ofDigitChars_ten_toDigits]

/-- Digits belong to words. -/
theorem isIdentifier_repr (n : Nat) : IsIdentifier n.repr := by
  constructor
  · intro h
    have hnil := congrArg String.toList h
    rw [Nat.toList_repr] at hnil
    exact Nat.toDigits_ne_nil hnil
  · intro c hc
    rw [Nat.toList_repr] at hc
    obtain ⟨k, hk, rfl⟩ := exists_digitChar (by decide) hc
    interval_cases k <;> decide

theorem IsIdentifier.scansUpTo {text : String} (h : IsIdentifier text) :
    ScansUpTo .word text.toList [.word text] := by
  have hne : text.toList ≠ [] := fun hnil => h.1 (String.toList_injective hnil)
  have hrun := scansUpTo_run (.inl rfl) hne h.2
  rwa [Reading.tokenOfRun, if_pos rfl, String.ofList_toList] at hrun

namespace Reference

/-- The reference as it is written. -/
def text : Reference → String
  | name text => text
  | entry list index => list ++ "[" ++ index.repr ++ "]"

/-- The tokens of a reference. -/
def tokens : Reference → List Token
  | name text => [.word text]
  | entry list index => [.word list, .symbol "[", .word index.repr, .symbol "]"]

/-- Whether the name in it is a word. -/
def IsLegible : Reference → Prop
  | name text => IsIdentifier text
  | entry list _ => IsIdentifier list

/-- Reads a reference off the front of some tokens. -/
def read? : List Token → Option (Reference × List Token)
  | .word list :: .symbol "[" :: .word index :: .symbol "]" :: rest =>
    (numeral? index).map fun index => (entry list index, rest)
  | .word text :: rest => some (name text, rest)
  | _ => none

theorem length_lt_of_read? {tokens rest : List Token} {reference : Reference}
    (h : read? tokens = some (reference, rest)) : rest.length < tokens.length := by
  unfold read? at h
  split at h
  · obtain ⟨index, -, h⟩ := Option.map_eq_some_iff.mp h
    obtain ⟨-, rfl⟩ := Prod.mk.inj h
    simp only [List.length_cons]
    omega
  · obtain ⟨-, rfl⟩ := Prod.mk.inj (Option.some.inj h)
    exact Nat.lt_succ_self _
  · cases h

/-- A reference is read off its tokens, unless an index follows. -/
theorem read?_tokens (reference : Reference) {rest : List Token}
    (h : rest.head? ≠ some (.symbol "[")) :
    read? (reference.tokens ++ rest) = some (reference, rest) := by
  cases reference with
  | entry list index => simp [tokens, read?, numeral?_repr]
  | name text =>
    rw [tokens, List.singleton_append, read?]
    intro index rest' hrest
    exact h (by rw [hrest]; rfl)

theorem scansUpTo_text {reference : Reference} (h : reference.IsLegible) :
    ScansUpTo .word reference.text.toList reference.tokens := by
  cases reference with
  | name text => exact IsIdentifier.scansUpTo h
  | entry list index =>
    have hclose : Scans [']'] [.symbol "]"] := fun rest => rfl
    have hopen : Scans ['['] [.symbol "["] := fun rest => rfl
    have hindex := (isIdentifier_repr index).scansUpTo.append_cons (by decide) hclose
    have hlist := (IsIdentifier.scansUpTo h).append_cons (by decide) hopen
    simpa [text, tokens, String.toList_append] using (hlist.append hindex).upTo .word

end Reference

/-! ## Conditions -/

/-- Reads references with a connective between them and a fixed ending behind the last one. -/
def condition? (connective : Token) (ending tokens : List Token) : Option (List Reference) :=
  match _h : Reference.read? tokens with
  | none => none
  | some (first, rest) =>
    -- The ending comes first, so it must not begin with the connective.
    if rest = ending then some [first]
    else
      match _hrest : rest with
      | [] => none
      | token :: more =>
        if token = connective then (condition? connective ending more).map (first :: ·) else none
termination_by tokens.length
decreasing_by
  have hlt := Reference.length_lt_of_read? _h
  rw [List.length_cons] at hlt
  omega

theorem condition?_last {connective : Token} {ending tokens : List Token} {first : Reference}
    (h : Reference.read? tokens = some (first, ending)) :
    condition? connective ending tokens = some [first] := by
  rw [condition?]
  split
  next h' =>
    rw [h] at h'
    cases h'
  next first' rest h' =>
    rw [h] at h'
    obtain ⟨rfl, rfl⟩ := Prod.mk.inj (Option.some.inj h')
    rw [if_pos rfl]

theorem condition?_further {connective : Token} {ending tokens more : List Token}
    {first : Reference} (h : Reference.read? tokens = some (first, connective :: more))
    (hstop : ending.head? ≠ some connective) :
    condition? connective ending tokens =
      (condition? connective ending more).map (first :: ·) := by
  rw [condition?]
  split
  next h' =>
    rw [h] at h'
    cases h'
  next first' rest h' =>
    rw [h] at h'
    obtain ⟨rfl, rfl⟩ := Prod.mk.inj (Option.some.inj h')
    have hne : connective :: more ≠ ending := by
      rintro rfl
      exact hstop rfl
    rw [if_neg hne]
    exact if_pos rfl

/-- The tokens of a condition. -/
def conditionTokens (connective : Token) (condition : List Reference) : List Token :=
  [connective].intercalate (condition.map Reference.tokens)

/-- A condition is read off its tokens. -/
theorem condition?_tokens (connective : Token) (ending : List Token) {condition : List Reference}
    (hne : condition ≠ []) (hconnective : connective ≠ .symbol "[")
    (hending : ending.head? ≠ some (.symbol "[")) (hstop : ending.head? ≠ some connective) :
    condition? connective ending (conditionTokens connective condition ++ ending) =
      some condition := by
  induction condition with
  | nil => exact absurd rfl hne
  | cons first condition ih =>
    cases condition with
    | nil =>
      have htokens : conditionTokens connective [first] = first.tokens := by
        simp [conditionTokens, List.intercalate]
      rw [htokens]
      exact condition?_last (first.read?_tokens hending)
    | cons second condition =>
      have htokens : conditionTokens connective (first :: second :: condition) ++ ending =
          first.tokens ++ connective ::
            (conditionTokens connective (second :: condition) ++ ending) := by
        simp [conditionTokens, List.intercalate_cons_cons]
      have hnext : (connective :: (conditionTokens connective (second :: condition) ++
          ending)).head? ≠ some (.symbol "[") := by
        simpa using hconnective
      rw [htokens, condition?_further (first.read?_tokens hnext) hstop, ih (List.cons_ne_nil _ _)]
      rfl

/-- A condition is made of connectives, words and the brackets of an index. -/
theorem of_mem_conditionTokens {connective token : Token} {condition : List Reference}
    (h : token ∈ conditionTokens connective condition) :
    token = connective ∨ (∃ text, token = .word text) ∨ token = .symbol "[" ∨
      token = .symbol "]" := by
  rcases mem_intercalate h with h | ⟨tokens, htokens, h⟩
  · exact .inl (List.mem_singleton.mp h)
  · obtain ⟨reference, -, rfl⟩ := List.mem_map.mp htokens
    cases reference with
    | name text => exact .inr (.inl ⟨text, List.mem_singleton.mp h⟩)
    | entry list index =>
      simp only [Reference.tokens, List.mem_cons, List.not_mem_nil, or_false] at h
      rcases h with rfl | rfl | rfl | rfl
      · exact .inr (.inl ⟨list, rfl⟩)
      · exact .inr (.inr (.inl rfl))
      · exact .inr (.inl ⟨index.repr, rfl⟩)
      · exact .inr (.inr (.inr rfl))

/-- A condition is scanned up to the first character that belongs to no word. -/
theorem scansUpTo_condition {between : String} {connective : Token} {blank : Char}
    {more : List Char} (hbetween : between.toList = blank :: more)
    (hblank : CharKind.of blank ≠ .word) (hscans : Scans between.toList [connective])
    {condition : List Reference} (hne : condition ≠ [])
    (hlegible : ∀ reference ∈ condition, reference.IsLegible) :
    ScansUpTo .word (between.intercalate (condition.map Reference.text)).toList
      (conditionTokens connective condition) := by
  induction condition with
  | nil => exact absurd rfl hne
  | cons first condition ih =>
    have hfirst := Reference.scansUpTo_text (hlegible first List.mem_cons_self)
    cases condition with
    | nil => simpa [conditionTokens, List.intercalate] using hfirst
    | cons second condition =>
      have hrest := ih (List.cons_ne_nil _ _) fun r hr => hlegible r (List.mem_cons_of_mem _ hr)
      -- The separator begins with a blank, where the last word of a reference ends.
      rw [hbetween] at hscans
      have hall := ScansUpTo.prepend (hfirst.append_cons hblank hscans) hrest
      rw [List.map_cons, List.map_cons, String.intercalate_cons_cons, String.toList_append,
        String.toList_append, hbetween, conditionTokens, List.map_cons, List.map_cons,
        List.intercalate_cons_cons]
      exact hall

/-! ## Names -/

namespace Names

/-- How a condition mentions an input: by the name given for it, or as an entry of `input`. -/
def refer (names : Names) (var : Int) : Reference :=
  match names.texts[var.toNat]? with
  | some name => if name = "" then .entry "input" var.toNat else .name name
  | .none => .entry "input" var.toNat

theorem nameOf_eq (names : Names) {var : Int} (h : 0 ≤ var) :
    names.nameOf var = .ok (names.refer var).text := by
  obtain ⟨n, rfl⟩ := Int.eq_ofNat_of_zero_le h
  have hposition : s!"input[{(n : Int)}]" = (Reference.entry "input" n).text := rfl
  rw [nameOf, refer, Int.toNat_natCast]
  by_cases hlt : n < names.texts.length
  · rw [if_pos (by exact_mod_cast hlt), atPosition_natCast _ hlt, List.getElem?_eq_getElem hlt]
    by_cases hempty : names.texts[n] = ""
    · simp only [hempty, if_true, hposition]
    · simp [hempty, Reference.text]
  · rw [if_neg (by exact_mod_cast hlt), List.getElem?_eq_none (by omega), hposition]

theorem joined_eq (names : Names) (between : String) {vars : List Int}
    (h : ∀ var ∈ vars, 0 ≤ var) :
    names.joined between vars =
      .ok (between.intercalate ((vars.map names.refer).map Reference.text)) := by
  rw [joined, mapM_eq_ok fun var hvar => names.nameOf_eq (h var hvar), List.map_map]
  rfl

end Names

/-! ## Parameters and arguments -/

/-- Different names are looked up by position. -/
theorem lookup_zip {names : List String} (hnodup : names.Nodup) {values : List Bool} {i : Nat}
    (hname : i < names.length) (hvalue : i < values.length) :
    (names.zip values).lookup names[i] = some values[i] := by
  induction names generalizing values i with
  | nil => cases hname
  | cons name names ih =>
    obtain ⟨hfirst, hrest⟩ := List.nodup_cons.mp hnodup
    cases values with
    | nil => cases hvalue
    | cons value values =>
      cases i with
      | zero => simp
      | succ i =>
        have hlt : i < names.length := Nat.lt_of_succ_lt_succ hname
        have hne : names[i] ≠ name := fun h => hfirst (h ▸ List.getElem_mem hlt)
        rw [List.zip_cons_cons, List.lookup_cons, List.getElem_cons_succ, List.getElem_cons_succ,
          beq_eq_false_iff_ne.mpr hne]
        exact ih hrest hlt _

namespace Names

/-- Names for the parameters of a function that reads the given inputs: none at all, or different
    words that reach to all of these inputs. -/
def AreParameters (names : Names) (inputs : List Int) : Prop :=
  names.texts = [] ∨
    (names.texts.Nodup ∧ (∀ name ∈ names.texts, IsIdentifier name) ∧
      ∀ var ∈ inputs, var < names.texts.length)

variable {names : Names} {inputs : List Int}

theorem refer_of_nil (h : names.texts = []) (var : Int) :
    names.refer var = .entry "input" var.toNat := by
  rw [refer, h]
  rfl

/-- A named input is mentioned by its name. -/
theorem refer_of_lt (h : ∀ name ∈ names.texts, IsIdentifier name) {var : Int}
    (hlt : var.toNat < names.texts.length) : names.refer var = .name names.texts[var.toNat] := by
  have hne := (h _ (List.getElem_mem hlt)).1
  rw [refer, List.getElem?_eq_getElem hlt]
  simp [hne]

/-- Inputs are mentioned legibly if all given names are words. -/
theorem isLegible_refer_of_words (h : ∀ name ∈ names.texts, IsIdentifier name) (var : Int) :
    (names.refer var).IsLegible := by
  have hinput : IsIdentifier "input" := by decide
  rw [refer]
  split
  next name hname =>
    split
    · exact hinput
    · exact h name (List.mem_of_getElem? hname)
  next => exact hinput

theorem isLegible_refer (h : names.AreParameters inputs) {var : Int} (hvar : var ∈ inputs)
    (hnonneg : 0 ≤ var) : (names.refer var).IsLegible := by
  rcases h with hnil | ⟨-, hwords, hreach⟩
  · rw [refer_of_nil hnil]
    exact (by decide : IsIdentifier "input")
  · have hlt := hreach var hvar
    have hget : var.toNat < names.texts.length := by omega
    rw [refer_of_lt hwords hget]
    exact hwords _ (List.getElem_mem hget)

/-- A parameter stands for the value of its input, and so does an entry of all arguments. -/
theorem value?_refer (h : names.AreParameters inputs) {var : Int} (hvar : var ∈ inputs)
    {a : Assignment} (hcovered : var ∈ inputNumbers a.length) :
    (names.refer var).value? names.texts a = some (a.value var) := by
  obtain ⟨hnonneg, hlt⟩ := mem_inputNumbers.mp hcovered
  have hinput : var.toNat < a.length := by omega
  have hvalue : a.value var = a[var.toNat] := by
    simp [Assignment.value, List.getD_eq_getElem?_getD, hinput]
  rcases h with hnil | ⟨hnodup, hwords, hreach⟩
  · rw [refer_of_nil hnil, hnil, hvalue]
    simp [Reference.value?, hinput]
  · have hname := hreach var hvar
    have hget : var.toNat < names.texts.length := by omega
    have hgiven : names.texts.isEmpty = false := by
      cases htexts : names.texts with
      | nil => rw [htexts] at hget; cases hget
      | cons => rfl
    rw [refer_of_lt hwords hget, hvalue]
    simp [Reference.value?, hgiven, lookup_zip hnodup hget hinput]

end Names

/-! ## Phrases in a style -/

/-- Whether a phrase can be read back: conditions ask for inputs with legible names, expressions
    are those of cells, and blocks are closed by a phrase only if the style does so. -/
def Phrase.IsLegible (expression : Cell → Token) (closed : Bool) : Phrase → Prop
  | opens condition => condition ≠ [] ∧ ∀ reference ∈ condition, reference.IsLegible
  | returns token => ∃ cell, token = expression cell
  | closes => closed = true

/-- Inputs can be read back if their names can. -/
theorem Diagram.isLegible_statements {ι : Type} (refer : Int → Reference)
    (expression : Cell → Token) (closed : Bool) (level : Nat) {d : Diagram ι}
    (hrefer : ∀ var ∈ d.tests, (refer var).IsLegible) :
    ∀ statement ∈ d.outline.statements refer expression closed level,
      statement.2.IsLegible expression closed := by
  induction d using opening_induction generalizing level with
  | give d cell hopening =>
    rw [outline_eq, hopening]
    intro statement hmem
    obtain rfl : statement = (level, .returns (expression cell)) := List.mem_singleton.mp hmem
    exact ⟨cell, rfl⟩
  | ask d inputs high low hopening ihHigh ihLow =>
    have htests := tests_opening_subset hopening
    have hhigh := ihHigh (level + 1) fun var hvar =>
      hrefer var (htests (List.mem_append_right _ (List.mem_append_left _ hvar)))
    have hlow := ihLow level fun var hvar =>
      hrefer var (htests (List.mem_append_right _ (List.mem_append_right _ hvar)))
    rw [outline_eq, hopening]
    intro statement hmem
    -- The line that opens the block, the block, its end and what follows it.
    rcases List.mem_cons.mp hmem with rfl | hmem
    · refine ⟨fun hnil => inputs_ne_nil hopening (List.map_eq_nil_iff.mp hnil), ?_⟩
      intro reference hreference
      obtain ⟨var, hvar, rfl⟩ := List.mem_map.mp hreference
      exact hrefer var (htests (List.mem_append_left _ hvar))
    rcases List.mem_append.mp hmem with hmem | hmem
    · exact hhigh statement hmem
    rcases List.mem_append.mp hmem with hmem | hmem
    · cases closed with
      | true =>
        obtain rfl := List.mem_singleton.mp hmem
        rfl
      | false => cases hmem
    · exact hlow statement hmem

namespace CodeStyle

variable {ι : Type} (style : CodeStyle)

/-- The token of a cell: a text is a literal, and no text is a word. -/
def expression : Cell → Token
  | .literal text => .literal (style.value (.literal text))
  | .dontCare => .word (style.value .dontCare)

theorem text_expression (cell : Cell) : (style.expression cell).text = style.value cell := by
  cases cell <;> rfl

theorem isExpression_expression (cell : Cell) : (style.expression cell).isExpression = true := by
  cases cell <;> rfl

/-- A phrase as the style writes it. -/
def phraseText : Phrase → String
  | .opens condition =>
    style.opening (style.conjunction.intercalate (condition.map Reference.text))
  | .returns expression => style.returning expression.text
  | .closes => style.closing.getD ""

theorem phraseText_returns (cell : Cell) :
    style.phraseText (.returns (style.expression cell)) = style.returning (style.value cell) := by
  rw [phraseText, text_expression]

/-- A phrase on a line of its own. -/
def statementText (statement : Nat × Phrase) : List Char :=
  (style.line statement.1 (style.phraseText statement.2)).toList

/-- Code for an outline is written phrase by phrase. -/
theorem exists_body (names : Names) (level : Nat) {o : Outline ι}
    (hinputs : ∀ var ∈ o.inputs, 0 ≤ var) :
    ∃ text, style.body names level o = .ok text ∧
      text.toList = (o.statements names.refer style.expression style.closing.isSome level).flatMap
        style.statementText := by
  induction o generalizing level with
  | give mark cell =>
    refine ⟨_, rfl, ?_⟩
    simp [Outline.statements, statementText, phraseText_returns]
  | test mark inputs high low ihHigh ihLow =>
    have hasked : ∀ var ∈ inputs, 0 ≤ var := fun var hvar =>
      hinputs var (by simp [Outline.inputs, hvar])
    obtain ⟨block, hblock, hblockText⟩ := ihHigh (level + 1)
      (fun var hvar => hinputs var (by simp [Outline.inputs, hvar]))
    obtain ⟨rest, hrest, hrestText⟩ := ihLow level
      (fun var hvar => hinputs var (by simp [Outline.inputs, hvar]))
    simp only [body, names.joined_eq _ hasked, hblock, hrest]
    refine ⟨_, rfl, ?_⟩
    simp only [String.toList_append, Outline.statements, List.flatMap_cons, List.flatMap_append,
      hblockText, hrestText, List.append_assoc]
    cases hclosing : style.closing <;> simp [statementText, phraseText, hclosing]

/-- What a style has to keep to so that its phrases are scanned and read back. -/
structure IsReadable (tokens : Phrase → List Token) (phrase? : List Token → Option Phrase) :
    Prop where
  indent : ∀ c ∈ style.indent.toList, CharKind.of c = .blank
  scans : ∀ phrase : Phrase, phrase.IsLegible style.expression style.closing.isSome →
    Scans ((style.phraseText phrase).toList ++ ['\n']) (tokens phrase)
  phrase?_tokens : ∀ phrase : Phrase, phrase.IsLegible style.expression style.closing.isSome →
    phrase? (tokens phrase) = some phrase

namespace IsReadable

variable {style} {tokens : Phrase → List Token} {phrase? : List Token → Option Phrase}

/-- Indentation does not matter to the scanner. -/
theorem scans_statementText (h : style.IsReadable tokens phrase?) {statement : Nat × Phrase}
    (hlegible : statement.2.IsLegible style.expression style.closing.isSome) :
    Scans (style.statementText statement) (tokens statement.2) := by
  have hindent : Scans (String.join (List.replicate statement.1 style.indent)).toList [] := by
    refine Scans.blanks fun c hc => ?_
    rw [String.toList_join] at hc
    obtain ⟨text, htext, hc⟩ := List.mem_flatMap.mp hc
    rw [List.eq_of_mem_replicate htext] at hc
    exact h.indent c hc
  simpa [statementText, line, String.toList_append] using
    hindent.append (h.scans statement.2 hlegible)

end IsReadable

end CodeStyle

end Dichotomy
