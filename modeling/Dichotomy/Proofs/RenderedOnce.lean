import Dichotomy.Proofs.DistinctRenderings
import Mathlib.Order.Bounds.Basic

/-!
# Each rendering once

Whatever items are rendered, with whatever numbers and in whatever order, each text comes out once
and under the least of its numbers.  Since the items are sorted by their numbers first, it matters
in which order they were given only where two of them have one number.

## Main statements

- `exists_distinctRenderings_iff`: rendering fails only if it fails for some item.
- `KeepsFirst.mem_iff_isLeast`: a text is kept under the least of its numbers.
- `distinctRenderings_perm`: the order of the items does not matter.
- `distinctRenderings_least`: all of this together.
-/

namespace Dichotomy

variable {α ε : Type} {render : α → Except ε String} {items : List (Int × α)}

/-! ## Numbers of a text -/

/-- The numbers of the items that are rendered as a text. -/
def numbersOf (render : α → Except ε String) (items : List (Int × α)) (text : String) : Set Int :=
  { id | ∃ item ∈ items, item.1 = id ∧ render item.2 = .ok text }

/-- The text of an item, if it has one. -/
def textOf (render : α → Except ε String) (item : Int × α) : String :=
  (render item.2).toOption.getD ""

theorem textOf_eq {item : Int × α} {text : String} (h : render item.2 = .ok text) :
    textOf render item = text := by
  rw [textOf, h]
  rfl

/-- No two entries with one text are kept. -/
theorem KeepsFirst.nodup_texts {β : Type} {number : β → Int} {text : β → String}
    {entries kept : List β} (h : KeepsFirst number text entries kept) : (kept.map text).Nodup :=
  List.pairwise_map.mpr h.distinct

/-- The texts of the items are those that are kept. -/
theorem KeepsFirst.mem_texts_iff {kept : List (Int × α)}
    (hkeeps : KeepsFirst Prod.fst (textOf render) items kept)
    (hrender : ∀ item ∈ items, render item.2 = .ok (textOf render item)) {text : String} :
    text ∈ kept.map (textOf render) ↔ ∃ item ∈ items, render item.2 = .ok text := by
  constructor
  · intro h
    obtain ⟨item, hitem, rfl⟩ := List.mem_map.mp h
    have hmem := hkeeps.subset hitem
    exact ⟨item, hmem, hrender item hmem⟩
  · rintro ⟨item, hitem, htext⟩
    obtain ⟨first, hfirst, hsame, -⟩ := hkeeps.represents item hitem
    rw [textOf_eq htext] at hsame
    exact List.mem_map.mpr ⟨first, hfirst, hsame⟩

/-- What is kept for a text that some item has is a pair of it and the least of its numbers. -/
theorem KeepsFirst.mem_iff_isLeast {kept : List (Int × α)}
    (hkeeps : KeepsFirst Prod.fst (textOf render) items kept)
    (hrender : ∀ item ∈ items, render item.2 = .ok (textOf render item)) {id : Int}
    {text : String} :
    (id, text) ∈ kept.map (fun item => (item.1, textOf render item)) ↔
      IsLeast (numbersOf render items text) id := by
  constructor
  · intro h
    obtain ⟨item, hitem, heq⟩ := List.mem_map.mp h
    obtain ⟨rfl, rfl⟩ := Prod.mk.inj heq
    have hmem := hkeeps.subset hitem
    refine ⟨⟨item, hmem, rfl, hrender item hmem⟩, ?_⟩
    rintro _ ⟨other, hother, rfl, htext⟩
    obtain ⟨first, hfirst, hsame, hle⟩ := hkeeps.represents other hother
    rw [textOf_eq htext] at hsame
    -- The item that is kept for the other one has the same text, so it is the one at hand.
    obtain rfl := List.inj_on_of_nodup_map hkeeps.nodup_texts hfirst hitem hsame
    exact hle
  · rintro ⟨⟨item, hitem, rfl, htext⟩, hleast⟩
    obtain ⟨first, hfirst, hsame, hle⟩ := hkeeps.represents item hitem
    rw [textOf_eq htext] at hsame
    -- What is kept for the item has no greater number, and the number of the item is the least.
    have hmem := hkeeps.subset hfirst
    have hge := hleast ⟨first, hmem, rfl, hsame ▸ hrender first hmem⟩
    exact List.mem_map.mpr ⟨first, hfirst, Prod.ext (Int.le_antisymm hle hge) hsame⟩

/-! ## Success -/

/-- Everything is rendered, though not everything is kept. -/
theorem exists_text_of_distinctRenderings {pairs : List (Int × String)}
    (h : distinctRenderings render items = .ok pairs) :
    ∀ item ∈ items, render item.2 = .ok (textOf render item) := by
  intro item hitem
  rw [distinctRenderings_eq] at h
  obtain ⟨rendered, hrendered, -⟩ := exists_of_bind_eq_ok h
  have hmem := (perm_byNumber Prod.fst items).mem_iff.mpr hitem
  obtain ⟨_, -, hpair⟩ := exists_of_mapM_eq_ok hrendered item hmem
  obtain ⟨text, htext, -⟩ := exists_of_bind_eq_ok hpair
  rw [textOf_eq htext, htext]

/-- If everything can be rendered, one item is kept for each text. -/
theorem exists_kept (h : ∀ item ∈ items, render item.2 = .ok (textOf render item)) :
    ∃ kept, distinctRenderings render items =
        .ok (kept.map fun item => (item.1, textOf render item)) ∧
      KeepsFirst Prod.fst (textOf render) items kept := by
  have hkept := exists_distinctRenderings Prod.fst (textOf render) Prod.snd h
  rwa [List.map_id''] at hkept
  exact fun _ => rfl

/-- Renderings are found exactly if each item can be rendered. -/
theorem exists_distinctRenderings_iff :
    (∃ pairs, distinctRenderings render items = .ok pairs) ↔
      ∀ item ∈ items, ∃ text, render item.2 = .ok text := by
  constructor
  · rintro ⟨pairs, hpairs⟩ item hitem
    exact ⟨_, exists_text_of_distinctRenderings hpairs item hitem⟩
  · intro h
    obtain ⟨kept, hkept, -⟩ := exists_kept fun item hitem => by
      obtain ⟨text, htext⟩ := h item hitem
      rw [textOf_eq htext, htext]
    exact ⟨_, hkept⟩

/-! ## Order of the items -/

/-- Items with numbers of their own are sorted into one order. -/
theorem distinctRenderings_perm {items' : List (Int × α)} (hdistinct : (items.map Prod.fst).Nodup)
    (h : items'.Perm items) :
    distinctRenderings render items' = distinctRenderings render items := by
  rw [distinctRenderings_eq, distinctRenderings_eq, byNumber_eq_of_perm hdistinct h]

/-- **Each rendering once**: renderings are found exactly if each item can be rendered.  Then no
    text comes twice, the numbers do not fall, each text of an item comes once, and the numbers
    that stand with a text are the least among those of the items with this text.  If the items
    have numbers of their own, it does not matter in which order they are given. -/
theorem distinctRenderings_least (render : α → Except ε String) (items : List (Int × α)) :
    ((∃ pairs, distinctRenderings render items = .ok pairs) ↔
        ∀ item ∈ items, ∃ text, render item.2 = .ok text) ∧
      (∀ pairs, distinctRenderings render items = .ok pairs →
        pairs.Pairwise (fun x y => x.2 ≠ y.2) ∧ pairs.Pairwise (fun x y => x.1 ≤ y.1) ∧
          (∀ text, (pairs.map Prod.snd).count text = 1 ↔
            ∃ item ∈ items, render item.2 = .ok text) ∧
          ∀ id text, (id, text) ∈ pairs ↔ IsLeast (numbersOf render items text) id) ∧
      ((items.map Prod.fst).Nodup → ∀ items' : List (Int × α), items'.Perm items →
        distinctRenderings render items' = distinctRenderings render items) := by
  refine ⟨exists_distinctRenderings_iff, fun pairs hpairs => ?_,
    fun hdistinct items' h => distinctRenderings_perm hdistinct h⟩
  have hrender := exists_text_of_distinctRenderings hpairs
  obtain ⟨kept, hkept, hkeeps⟩ := exists_kept hrender
  obtain rfl := Except.ok.inj (hkept.symm.trans hpairs)
  refine ⟨List.pairwise_map.mpr hkeeps.distinct, List.pairwise_map.mpr hkeeps.ascending,
    fun text => ?_, fun id text => hkeeps.mem_iff_isLeast hrender⟩
  have htexts : (kept.map fun item => (item.1, textOf render item)).map Prod.snd =
      kept.map (textOf render) := List.map_map
  rw [htexts, ← hkeeps.mem_texts_iff hrender]
  constructor
  · intro hcount
    exact List.count_pos_iff.mp (by omega)
  · intro hmem
    exact List.count_eq_one_of_mem hkeeps.nodup_texts hmem

/-- Of the two items with one text, the one given last has the lower number. -/
theorem distinctRenderings_least_last :
    let render : Cell → Except Fault String := fun cell => .ok (JavaScript.value cell)
    let items : List (Int × Cell) :=
      [(4, .literal "A"), (-2, .dontCare), (5, .literal "B"), (3, .literal "A")]
    (items.map Prod.fst).Nodup ∧ items.reverse.Perm items ∧
      distinctRenderings render items.reverse = distinctRenderings render items ∧
      ∃ pairs, distinctRenderings render items = .ok pairs ∧ (3, "'A'") ∈ pairs ∧
        (4, "'A'") ∉ pairs ∧ (pairs.map Prod.snd).count "'A'" = 1 := by
  intro render items
  have hdistinct : (items.map Prod.fst).Nodup := by decide
  have hperm : items.reverse.Perm items := items.reverse_perm
  obtain ⟨hfound, hkept, hsame⟩ := distinctRenderings_least render items
  obtain ⟨pairs, hpairs⟩ := hfound.mpr fun item _ => ⟨_, rfl⟩
  obtain ⟨-, -, hcount, hleast⟩ := hkept pairs hpairs
  have hthree : (3, "'A'") ∈ pairs := by
    refine (hleast 3 "'A'").mpr ⟨⟨(3, .literal "A"), by simp [items], rfl, rfl⟩, ?_⟩
    rintro _ ⟨item, hitem, rfl, htext⟩
    simp only [items, List.mem_cons, List.not_mem_nil, or_false] at hitem
    rcases hitem with rfl | rfl | rfl | rfl
    · decide
    · exact absurd (Except.ok.inj htext) (by decide)
    · decide
    · decide
  have hfour : (4, "'A'") ∉ pairs := fun h =>
    absurd (((hleast 4 "'A'").mp h).2 ((hleast 3 "'A'").mp hthree).1) (by decide)
  exact ⟨hdistinct, hperm, hsame hdistinct _ hperm, pairs, hpairs, hthree, hfour,
    (hcount "'A'").mpr ⟨(3, .literal "A"), by simp [items], rfl⟩⟩

end Dichotomy
