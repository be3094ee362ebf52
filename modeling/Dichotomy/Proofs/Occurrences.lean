import Mathlib.Data.List.Infix

/-!
# Occurrences of a word in written text

Code is checked by counting how often a word stands in it.  The count goes over all places of a
text; it does not see across a character that the word lacks, and it does not change when text is
escaped, except where an escape spells the first character of the word.

## Main statements

- `occurrences_append_cons`: a character outside the word separates the counts.
- `occurrences_eq_zero`: a text that does not contain the word has no occurrences.
- `occurrences_flatMap`, `occurrences_flatMap_odd`: what escaping does to the count.
-/

namespace Dichotomy

/-- How often a word stands in a text. -/
def occurrences (word : List Char) : List Char → Nat
  | [] => 0
  | c :: rest => (if word.isPrefixOf (c :: rest) then 1 else 0) + occurrences word rest

variable {word : List Char} {first : Char}

/-! ## Places -/

/-- A place counts only if the word can begin there. -/
theorem occurrences_cons_of_ne {c : Char} (h : c ≠ first) (text : List Char) :
    occurrences (first :: word) (c :: text) = occurrences (first :: word) text := by
  have hne : (first == c) = false := beq_eq_false_iff_ne.mpr h.symm
  simp [occurrences, List.isPrefixOf, hne]

/-- Text without the first character of the word can be skipped. -/
theorem occurrences_append_of_notMem {skipped : List Char} (h : first ∉ skipped)
    (text : List Char) :
    occurrences (first :: word) (skipped ++ text) = occurrences (first :: word) text := by
  induction skipped with
  | nil => rfl
  | cons c skipped ih =>
    simp only [List.mem_cons, not_or] at h
    rw [List.cons_append, occurrences_cons_of_ne (Ne.symm h.1), ih h.2]

private theorem isPrefixOf_append_cons {c : Char} (h : c ∉ word) (text more : List Char) :
    word.isPrefixOf (text ++ c :: more) = word.isPrefixOf text := by
  induction word generalizing text with
  | nil => simp
  | cons w word ih =>
    simp only [List.mem_cons, not_or] at h
    cases text with
    | nil =>
      -- The word would have to go on with the separating character.
      have hne : (w == c) = false := beq_eq_false_iff_ne.mpr (Ne.symm h.1)
      simp [List.isPrefixOf, hne]
    | cons t text =>
      rw [List.cons_append, List.isPrefixOf, List.isPrefixOf, ih h.2]

/-- A character outside the word separates what stands before it from what stands after it. -/
theorem occurrences_append_cons {c : Char} (h : c ∉ first :: word) (text more : List Char) :
    occurrences (first :: word) (text ++ c :: more) =
      occurrences (first :: word) text + occurrences (first :: word) more := by
  induction text with
  | nil =>
    simp only [List.mem_cons, not_or] at h
    rw [List.nil_append, occurrences_cons_of_ne h.1]
    simp [occurrences]
  | cons t text ih =>
    -- Whether the word stands at the first place is decided before the separator.
    have hplace := isPrefixOf_append_cons h (t :: text) more
    rw [List.cons_append] at hplace ⊢
    rw [occurrences, occurrences, hplace, ih]
    omega

/-- A text that does not contain the word has no occurrences of it. -/
theorem occurrences_eq_zero {text : List Char} (h : ¬ word <:+: text) :
    occurrences word text = 0 := by
  induction text with
  | nil => rfl
  | cons c text ih =>
    have hplace : ¬ word.isPrefixOf (c :: text) = true := by
      intro hprefix
      exact h (List.isPrefixOf_iff_prefix.mp hprefix).isInfix
    have hrest : ¬ word <:+: text := by
      intro hpart
      exact h (hpart.trans (List.suffix_cons c text).isInfix)
    rw [occurrences, if_neg hplace, ih hrest]

/-! ## Escaped text -/

/-- A way of writing characters keeps a word readable if it writes the characters of the word as
    they are and begins all others with something else. -/
structure Keeps (write : Char → List Char) (word : List Char) : Prop where
  plain : ∀ c ∈ word, write c = [c]
  escaped : ∀ c, c ∉ word → ∃ mark rest, write c = mark :: rest ∧ mark ∉ word

variable {write : Char → List Char}

private theorem isPrefixOf_flatMap (hkeeps : Keeps write word) (part : List Char)
    (hpart : ∀ c ∈ part, c ∈ word) (text : List Char) :
    part.isPrefixOf (text.flatMap write) = part.isPrefixOf text := by
  induction part generalizing text with
  | nil => simp
  | cons p part ih =>
    have hp : p ∈ word := hpart p List.mem_cons_self
    cases text with
    | nil => rfl
    | cons c text =>
      rw [List.flatMap_cons]
      by_cases hc : c ∈ word
      · -- A character of the word is written as it is.
        rw [hkeeps.plain c hc, List.singleton_append, List.isPrefixOf, List.isPrefixOf,
          ih fun x hx => hpart x (List.mem_cons_of_mem _ hx)]
      · -- Any other one, written or not, ends the word.
        obtain ⟨mark, rest, hwrite, hmark⟩ := hkeeps.escaped c hc
        have hne : (p == c) = false := beq_eq_false_iff_ne.mpr fun h => hc (h ▸ hp)
        have hne' : (p == mark) = false := beq_eq_false_iff_ne.mpr fun h => hmark (h ▸ hp)
        simp [hwrite, List.isPrefixOf, hne, hne']

/-- A character of the word is counted in escaped text as it is in the text. -/
private theorem occurrences_flatMap_plain (hkeeps : Keeps write (first :: word)) {c : Char}
    (hc : c ∈ first :: word) (text : List Char) :
    occurrences (first :: word) (write c ++ text.flatMap write) =
      (if (first :: word).isPrefixOf (c :: text) then 1 else 0) +
        occurrences (first :: word) (text.flatMap write) := by
  have hplace := isPrefixOf_flatMap hkeeps (first :: word) (fun _ hx => hx) (c :: text)
  rw [List.flatMap_cons, hkeeps.plain c hc, List.singleton_append] at hplace
  rw [hkeeps.plain c hc, List.singleton_append, occurrences, hplace]

/-- Where no escape spells the first character of the word, escaped text holds the word as often
    as the text does. -/
theorem occurrences_flatMap (hkeeps : Keeps write (first :: word))
    (hrest : ∀ c, c ∉ first :: word → first ∉ write c) (text : List Char) :
    occurrences (first :: word) (text.flatMap write) = occurrences (first :: word) text := by
  induction text with
  | nil => rfl
  | cons c text ih =>
    rw [List.flatMap_cons]
    by_cases hc : c ∈ first :: word
    · rw [occurrences_flatMap_plain hkeeps hc, ih, occurrences]
    · -- What is written for any other character can be skipped, and so can the character.
      have hfirst : c ≠ first := fun h => hc (h ▸ List.mem_cons_self)
      rw [occurrences_append_of_notMem (hrest c hc), occurrences_cons_of_ne hfirst, ih]

/-- Where one character `odd` has an escape that ends in the first character of the word, the word
    is also found at each place where `odd` stands before the rest of the word. -/
theorem occurrences_flatMap_odd {odd mark : Char} (hkeeps : Keeps write (first :: word))
    (hodd : write odd = [mark, first]) (hoddWord : odd ∉ first :: word) (hmark : mark ≠ first)
    (hrest : ∀ c, c ∉ first :: word → c ≠ odd → first ∉ write c) (text : List Char) :
    occurrences (first :: word) (text.flatMap write) =
      occurrences (first :: word) text + occurrences (odd :: word) text := by
  induction text with
  | nil => rfl
  | cons c text ih =>
    rw [List.flatMap_cons]
    by_cases hc : c ∈ first :: word
    · have hne : c ≠ odd := fun h => hoddWord (h ▸ hc)
      rw [occurrences_flatMap_plain hkeeps hc, occurrences_cons_of_ne hne, ih, occurrences]
      omega
    · have hfirst : c ≠ first := fun h => hc (h ▸ List.mem_cons_self)
      rw [occurrences_cons_of_ne hfirst]
      by_cases hne : c = odd
      · subst hne
        -- The escape ends in the first character, and the rest of the word may follow.
        have hplace := isPrefixOf_flatMap hkeeps word (fun _ hx => List.mem_cons_of_mem _ hx) text
        rw [hodd, List.cons_append, List.singleton_append, occurrences_cons_of_ne hmark, occurrences,
          occurrences, List.isPrefixOf, List.isPrefixOf, hplace, ih]
        simp only [beq_self_eq_true, Bool.true_and]
        omega
      · rw [occurrences_append_of_notMem (hrest c hc hne), occurrences_cons_of_ne hne, ih]

end Dichotomy
