import Dichotomy.Proofs.CodeReturns
import Mathlib.Data.Nat.Digits.Defs

/-!
# Quoted texts

What is written for a cell tells the cell.  Characters are read off the front of a quoted text
one by one, each from its escape and whatever follows, so different texts are written differently
and none of them is written like the free cell.

## Main statements

- `ReadsBack.eq_of_flatMap_eq`: a text is known from its written characters.
- `JavaScript.value_injective`, `Python.value_injective`: a cell is known from its expression.
-/

namespace Dichotomy

/-- Each character is read off the front of what is written for it. -/
structure ReadsBack (write : Char → List Char) (read? : List Char → Option (Char × List Char)) :
    Prop where
  nil : read? [] = none
  append : ∀ c rest, read? (write c ++ rest) = some (c, rest)

namespace ReadsBack

variable {write : Char → List Char} {read? : List Char → Option (Char × List Char)}

/-- A text that is not empty is not written as one. -/
theorem ne_nil (h : ReadsBack write read?) (c : Char) (chars : List Char) :
    (c :: chars).flatMap write ≠ [] := by
  intro hnil
  have hread := h.append c (chars.flatMap write)
  rw [← List.flatMap_cons, hnil, h.nil] at hread
  cases hread

/-- Texts that are written alike are equal: their characters are read back in turn. -/
theorem eq_of_flatMap_eq (h : ReadsBack write read?) {chars chars' : List Char}
    (heq : chars.flatMap write = chars'.flatMap write) : chars = chars' := by
  induction chars generalizing chars' with
  | nil =>
    cases chars' with
    | nil => rfl
    | cons c chars' => exact absurd heq.symm (h.ne_nil c chars')
  | cons c chars ih =>
    cases chars' with
    | nil => exact absurd heq (h.ne_nil c chars)
    | cons c' chars' =>
      -- One text is read twice: it yields the first character and leaves the others.
      have hread := h.append c (chars.flatMap write)
      have hread' := h.append c' (chars'.flatMap write)
      rw [← List.flatMap_cons] at hread hread'
      rw [heq, hread', Option.some.injEq, Prod.mk.injEq] at hread
      obtain ⟨rfl, hrest⟩ := hread
      rw [ih hrest.symm]

end ReadsBack

/-! ## Single-quoted literals -/

namespace JavaScript

/-- Reads one character of a literal. -/
def readChar? : List Char → Option (Char × List Char)
  | '\\' :: c :: rest => some (c, rest)
  | c :: rest => some (c, rest)
  | [] => none

theorem readsBack_writeChar : ReadsBack writeChar readChar? where
  nil := rfl
  append c rest := by
    unfold writeChar
    split
    next => rfl
    next h =>
      simp only [Bool.or_eq_true, decide_eq_true_eq, not_or] at h
      cases rest <;> simp [readChar?, h.1]

/-- A cell is known from its expression. -/
theorem value_injective : Function.Injective value := by
  intro cell cell' h
  have hchars := congrArg String.toList h
  cases cell <;> cases cell'
  case literal.literal text text' =>
    -- The quotes go, and then the escapes.
    have hescaped : text.toList.flatMap writeChar = text'.toList.flatMap writeChar := by
      simpa [value, escaped, String.toList_append] using hchars
    rw [String.toList_injective (readsBack_writeChar.eq_of_flatMap_eq hescaped)]
  case literal.dontCare => simp [value, String.toList_append] at hchars
  case dontCare.literal => simp [value, String.toList_append] at hchars
  case dontCare.dontCare => rfl

end JavaScript

/-! ## Texts in either quotes -/

namespace Python

/-- The value of a lower-case hexadecimal digit. -/
def digitValue (c : Char) : Nat :=
  if c.isDigit then c.toNat - '0'.toNat else c.toNat - 'a'.toNat + 10

/-- The number that hexadecimal digits stand for, behind what has been read of it. -/
def hexValue (read : Nat) (digits : List Char) : Nat :=
  digits.foldl (fun n c => 16 * n + digitValue c) read

theorem digitValue_digitChar {k : Nat} (h : k < 16) : digitValue k.digitChar = k := by
  interval_cases k <;> rfl

theorem hexValue_append (read : Nat) (digits more : List Char) :
    hexValue read (digits ++ more) = hexValue (hexValue read digits) more :=
  List.foldl_append

theorem hexValue_toDigits (n : Nat) : hexValue 0 (Nat.toDigits 16 n) = n := by
  induction n using Nat.strongRecOn with
  | ind n ih =>
    rw [Nat.toDigits_eq_if (by decide)]
    split
    next h => simp [hexValue, digitValue_digitChar h]
    next h =>
      have hlast := digitValue_digitChar (Nat.mod_lt n (by decide : 16 > 0))
      rw [hexValue_append, ih (n / 16) (Nat.div_lt_self (by omega) (by decide)), hexValue,
        List.foldl_cons, List.foldl_nil, hlast]
      omega

theorem hexValue_zeros (k : Nat) : hexValue 0 (List.replicate k '0') = 0 := by
  induction k with
  | zero => rfl
  | succ k ih => exact ih

/-- Leading zeros do not matter. -/
theorem hexValue_hex (width n : Nat) : hexValue 0 (Quoted.hex width n) = n := by
  rw [Quoted.hex, hexValue_append, hexValue_zeros, hexValue_toDigits]

theorem length_hex {width n : Nat} (hwidth : 0 < width) (h : n < 16 ^ width) :
    (Quoted.hex width n).length = width := by
  have hdigits := Nat.toDigits_length 16 n width hwidth h
  rw [Quoted.hex, List.length_append, List.length_replicate]
  omega

/-- The character of some hexadecimal digits, which are read off the front. -/
def readHex? (width : Nat) (chars : List Char) : Option (Char × List Char) :=
  some (Char.ofNat (hexValue 0 (chars.take width)), chars.drop width)

theorem readHex?_hex {width : Nat} {c : Char} (hwidth : 0 < width) (h : c.toNat < 16 ^ width)
    (rest : List Char) : readHex? width (Quoted.hex width c.toNat ++ rest) = some (c, rest) := by
  have hlength := length_hex hwidth h
  rw [readHex?, List.take_append_of_le_length hlength.ge, List.drop_append_of_le_length hlength.ge,
    List.take_of_length_le hlength.le, List.drop_of_length_le hlength.le, hexValue_hex,
    Char.ofNat_toNat, List.nil_append]

/-- Reads one character of a quoted text. -/
def readChar? : List Char → Option (Char × List Char)
  | '\\' :: 't' :: rest => some ('\t', rest)
  | '\\' :: 'n' :: rest => some ('\n', rest)
  | '\\' :: 'r' :: rest => some ('\r', rest)
  | '\\' :: 'x' :: rest => readHex? 2 rest
  | '\\' :: 'u' :: rest => readHex? 4 rest
  | '\\' :: 'U' :: rest => readHex? 8 rest
  | '\\' :: c :: rest => some (c, rest)
  | c :: rest => some (c, rest)
  | [] => none

theorem readsBack_encodeChar {quote : Char} (hquote : quote = '\'' ∨ quote = '"') :
    ReadsBack (Quoted.encodeChar quote) readChar? where
  nil := rfl
  append c rest := by
    unfold Quoted.encodeChar
    split
    next h =>
      -- Neither the backslash nor a quote is one of the letters that escapes begin with.
      simp only [Bool.or_eq_true, decide_eq_true_eq] at h
      rcases h with rfl | rfl
      · rcases hquote with rfl | rfl <;> rfl
      · rfl
    next h =>
      simp only [Bool.or_eq_true, decide_eq_true_eq, not_or] at h
      split
      next ht => rw [ht]; rfl
      split
      next hn => rw [hn]; rfl
      split
      next hr => rw [hr]; rfl
      split
      next => cases rest <;> simp [readChar?, h.2]
      -- What is left is written by its number, with as many digits as it needs.
      split
      next hsmall => exact readHex?_hex (by decide) (by omega) rest
      split
      next hsmall => exact readHex?_hex (by decide) (by omega) rest
      next =>
        have hlt : c.toNat < 2 ^ 32 := c.val.toNat_lt
        exact readHex?_hex (by decide) (by omega) rest

/-- A cell is known from its expression. -/
theorem value_injective : Function.Injective value := by
  intro cell cell' h
  have hchars := congrArg String.toList h
  cases cell <;> cases cell'
  case literal.literal text text' =>
    -- The quote in front tells how the characters behind it are escaped.
    simp only [value, quoted, Quoted.encode, String.toList_ofList, List.cons_append,
      List.cons.injEq] at hchars
    obtain ⟨hquote, hescaped⟩ := hchars
    rw [← hquote] at hescaped
    have hread := readsBack_encodeChar (quoteFor_eq_or text.toList)
    rw [String.toList_injective (hread.eq_of_flatMap_eq (List.append_cancel_right hescaped))]
  case literal.dontCare text =>
    rcases quoteFor_eq_or text.toList with hquote | hquote <;>
      simp [value, quoted, Quoted.encode, hquote] at hchars
  case dontCare.literal text =>
    rcases quoteFor_eq_or text.toList with hquote | hquote <;>
      simp [value, quoted, Quoted.encode, hquote] at hchars
  case dontCare.dontCare => rfl

end Python

end Dichotomy
