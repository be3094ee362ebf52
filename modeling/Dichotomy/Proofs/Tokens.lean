import Dichotomy.Text.Blank
import Mathlib.Data.List.Basic

/-!
# Tokens

What a reader of code sees first: words, literals in quotes, brackets and operators.  Text is
scanned character by character, and what is read of an unfinished token is kept with the state.

Only the ends of a literal are found here.  A backslash takes the next character into the literal
whatever it is, and the literal keeps its quotes and its escapes.

## Main statements

- `scansUpTo_run`: words and operators are read up to the first character of another kind.
- `scans_literal`: a literal is read up to its closing quote.
-/

namespace Dichotomy

/-- A token of code. -/
inductive Token where
  /-- A name, a keyword or a number. -/
  | word (text : String)
  /-- A bracket, a separator or an operator. -/
  | symbol (text : String)
  /-- A text in quotes, as it is written. -/
  | literal (text : String)
  deriving DecidableEq

/-- The token as it is written. -/
def Token.text : Token → String
  | word text | symbol text | literal text => text

/-- Whether the token can stand for a value. -/
def Token.isExpression : Token → Bool
  | symbol _ => false
  | word _ | literal _ => true

/-- What a character begins, outside of literals. -/
inductive CharKind where
  /-- Nothing. -/
  | blank
  /-- A literal. -/
  | quote
  /-- A word, which goes on as long as there are such characters. -/
  | word
  /-- A symbol of its own. -/
  | bracket
  /-- An operator, which goes on as long as there are such characters. -/
  | operator
  deriving DecidableEq

/-- The kind of a character.  Names may hold any character beyond ASCII but white space. -/
def CharKind.of (c : Char) : CharKind :=
  if isWhiteSpace c then .blank
  else if c = '\'' || c = '"' then .quote
  else if c.isAlphanum || c = '_' || c = '$' || 0x80 ≤ c.toNat then .word
  else if ['(', ')', '[', ']', '\x7b', '\x7d', ';', ':', ','].contains c then .bracket
  else .operator

/-- How far the scanner is within a token; what it has read is kept last character first. -/
inductive Reading where
  /-- Between two tokens. -/
  | between
  /-- In characters of one kind. -/
  | inRun (kind : CharKind) (read : List Char)
  /-- In a literal. -/
  | inLiteral (quote : Char) (read : List Char)
  /-- In a literal, behind a backslash. -/
  | escaped (quote : Char) (read : List Char)

namespace Reading

/-- The token of a run of characters. -/
def tokenOfRun (kind : CharKind) (chars : List Char) : Token :=
  if kind = .word then .word (String.ofList chars) else .symbol (String.ofList chars)

/-- The first character of a token, or a blank. -/
def start (c : Char) : List Token × Reading :=
  match CharKind.of c with
  | .blank => ([], between)
  | .quote => ([], inLiteral c [c])
  | .bracket => ([.symbol (String.ofList [c])], between)
  | .word => ([], inRun .word [c])
  | .operator => ([], inRun .operator [c])

/-- One character: the tokens that end with it or before it, and where the scanner is then. -/
def step : Reading → Char → List Token × Reading
  | between, c => start c
  | inRun kind read, c =>
    if CharKind.of c = kind then ([], inRun kind (c :: read))
    else (tokenOfRun kind read.reverse :: (start c).1, (start c).2)
  | inLiteral quote read, c =>
    if c = '\\' then ([], escaped quote (c :: read))
    else if c = quote then ([.literal (String.ofList (c :: read).reverse)], between)
    else ([], inLiteral quote (c :: read))
  | escaped quote read, c => ([], inLiteral quote (c :: read))

/-- The end of the text.  A literal that has not been closed leaves its quote behind. -/
def finish : Reading → List Token
  | between => []
  | inRun kind read => [tokenOfRun kind read.reverse]
  | inLiteral quote _ | escaped quote _ => [.symbol (String.ofList [quote])]

end Reading

/-- The tokens of a text, from a state of the scanner on. -/
def scan (reading : Reading) : List Char → List Token
  | [] => reading.finish
  | c :: rest => (reading.step c).1 ++ scan (reading.step c).2 rest

/-! ## Texts that are read on their own -/

/-- A text is scanned as some tokens, whatever follows it. -/
def Scans (text : List Char) (tokens : List Token) : Prop :=
  ∀ rest, scan .between (text ++ rest) = tokens ++ scan .between rest

/-- A text is scanned as some tokens if no character of a given kind follows it. -/
def ScansUpTo (kind : CharKind) (text : List Char) (tokens : List Token) : Prop :=
  ∀ rest : List Char, (∀ c ∈ rest.head?, CharKind.of c ≠ kind) →
    scan .between (text ++ rest) = tokens ++ scan .between rest

namespace Scans

variable {text text' : List Char} {tokens tokens' : List Token}

theorem nil : Scans [] [] := fun _ => rfl

theorem append (h : Scans text tokens) (h' : Scans text' tokens') :
    Scans (text ++ text') (tokens ++ tokens') := by
  intro rest
  rw [List.append_assoc, h, h', List.append_assoc]

theorem flatMap {α : Type} {write : α → List Char} {read : α → List Token} {xs : List α}
    (h : ∀ x ∈ xs, Scans (write x) (read x)) : Scans (xs.flatMap write) (xs.flatMap read) := by
  induction xs with
  | nil => exact nil
  | cons x xs ih =>
    rw [List.flatMap_cons, List.flatMap_cons]
    exact (h x List.mem_cons_self).append (ih fun y hy => h y (List.mem_cons_of_mem _ hy))

theorem upTo (h : Scans text tokens) (kind : CharKind) : ScansUpTo kind text tokens :=
  fun rest _ => h rest

/-- Blanks are passed over. -/
theorem blanks (h : ∀ c ∈ text, CharKind.of c = .blank) : Scans text [] := by
  induction text with
  | nil => exact nil
  | cons c text ih =>
    intro rest
    have hc : Reading.between.step c = ([], .between) := by
      simp [Reading.step, Reading.start, h c List.mem_cons_self]
    rw [List.cons_append, scan, hc]
    exact ih (fun d hd => h d (List.mem_cons_of_mem _ hd)) rest

end Scans

namespace ScansUpTo

variable {kind : CharKind} {text text' : List Char} {tokens tokens' : List Token} {c : Char}

/-- The tokens of the whole text. -/
theorem scan_eq (h : ScansUpTo kind text tokens) : scan .between text = tokens := by
  have hall := h [] fun _ hc => nomatch hc
  rwa [List.append_nil, scan, Reading.finish, List.append_nil] at hall

theorem append_cons (h : ScansUpTo kind text tokens) (hc : CharKind.of c ≠ kind)
    (h' : Scans (c :: text') tokens') : Scans (text ++ c :: text') (tokens ++ tokens') := by
  intro rest
  have hnext : ∀ d ∈ (c :: (text' ++ rest)).head?, CharKind.of d ≠ kind := by
    rintro d ⟨⟩
    exact hc
  rw [List.append_assoc, List.cons_append, h _ hnext, ← List.cons_append, h', List.append_assoc]

theorem prepend (h : Scans text tokens) (h' : ScansUpTo kind text' tokens') :
    ScansUpTo kind (text ++ text') (tokens ++ tokens') := by
  intro rest hrest
  rw [List.append_assoc, h, h' rest hrest, List.append_assoc]

end ScansUpTo

/-- The tokens of the whole text. -/
theorem Scans.scan_eq {text : List Char} {tokens : List Token} (h : Scans text tokens) :
    scan .between text = tokens :=
  (h.upTo .word).scan_eq

/-! ## Words and operators -/

/-- A run that has begun goes on to the first character of another kind. -/
theorem scan_inRun {kind : CharKind} {text : List Char} (h : ∀ c ∈ text, CharKind.of c = kind)
    (read : List Char) {rest : List Char} (hrest : ∀ c ∈ rest.head?, CharKind.of c ≠ kind) :
    scan (.inRun kind read) (text ++ rest) =
      Reading.tokenOfRun kind (read.reverse ++ text) :: scan .between rest := by
  -- Over what is still to come of the run; the state holds what has been read of it.
  induction text generalizing read with
  | nil =>
    cases rest with
    | nil => simp [scan, Reading.finish]
    | cons c rest => simp [scan, Reading.step, hrest c rfl]
  | cons d text ih =>
    have hd := h d List.mem_cons_self
    have hread := ih (fun e he => h e (List.mem_cons_of_mem _ he)) (d :: read)
    simp [scan, Reading.step, hd, hread]

/-- A run of characters of one kind is read as one token. -/
theorem scansUpTo_run {kind : CharKind} (hkind : kind = .word ∨ kind = .operator)
    {text : List Char} (hne : text ≠ []) (h : ∀ c ∈ text, CharKind.of c = kind) :
    ScansUpTo kind text [Reading.tokenOfRun kind text] := by
  intro rest hrest
  cases text with
  | nil => exact absurd rfl hne
  | cons d text =>
    have hstart : Reading.between.step d = ([], .inRun kind [d]) := by
      have hd := h d List.mem_cons_self
      rcases hkind with rfl | rfl <;> simp [Reading.step, Reading.start, hd]
    rw [List.cons_append, scan, hstart]
    exact scan_inRun (fun e he => h e (List.mem_cons_of_mem _ he)) [d] hrest

/-! ## Literals -/

/-- A text that a literal goes on behind. -/
def StaysQuoted (quote : Char) (text : List Char) : Prop :=
  ∀ read rest, scan (.inLiteral quote read) (text ++ rest) =
    scan (.inLiteral quote (text.reverse ++ read)) rest

namespace StaysQuoted

variable {quote : Char}

theorem nil : StaysQuoted quote [] := fun _ _ => rfl

theorem append {text text' : List Char} (h : StaysQuoted quote text)
    (h' : StaysQuoted quote text') : StaysQuoted quote (text ++ text') := by
  intro read rest
  rw [List.append_assoc, h, h', List.reverse_append, List.append_assoc]

theorem flatMap {write : Char → List Char} (h : ∀ c, StaysQuoted quote (write c))
    (chars : List Char) : StaysQuoted quote (chars.flatMap write) := by
  induction chars with
  | nil => exact nil
  | cons c chars ih => exact (h c).append ih

/-- Any character but the quote and the backslash stands for itself. -/
theorem singleton {c : Char} (hquote : c ≠ quote) (hslash : c ≠ '\\') : StaysQuoted quote [c] := by
  intro read rest
  simp [scan, Reading.step, hquote, hslash]

theorem of_forall {text : List Char} (h : ∀ c ∈ text, c ≠ quote ∧ c ≠ '\\') :
    StaysQuoted quote text := by
  induction text with
  | nil => exact nil
  | cons c text ih =>
    obtain ⟨hquote, hslash⟩ := h c List.mem_cons_self
    exact (singleton hquote hslash).append (ih fun d hd => h d (List.mem_cons_of_mem _ hd))

/-- A backslash takes any character in. -/
theorem escape (c : Char) : StaysQuoted quote ['\\', c] := by
  intro read rest
  simp [scan, Reading.step]

end StaysQuoted

/-- A literal is read up to its closing quote. -/
theorem scans_literal {quote : Char} (hquote : CharKind.of quote = .quote) {text : List Char}
    (h : StaysQuoted quote text) :
    Scans (quote :: text ++ [quote]) [.literal (String.ofList (quote :: text ++ [quote]))] := by
  have hslash : quote ≠ '\\' := by
    rintro rfl
    exact absurd hquote (by decide)
  intro rest
  have hstart : Reading.between.step quote = ([], .inLiteral quote [quote]) := by
    simp [Reading.step, Reading.start, hquote]
  rw [List.cons_append, List.cons_append, scan, hstart, List.append_assoc, h]
  simp [scan, Reading.step, hslash]

example : scan .between "return 'it\\'s';".toList =
    [.word "return", .literal "'it\\'s'", .symbol ";"] := by
  decide

end Dichotomy
