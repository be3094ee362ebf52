import Dichotomy.Export.Rendering
import Dichotomy.Proofs.Rearrangement

/-!
# Distinct renderings

Of the candidates that come out as the same text one is rendered, and no candidate with that text
has a lower number.  The others can be left out, because sorting keeps the order of what is left.

## Main statements

- `KeepsFirst`: what it means to keep one candidate for each text.
- `ExportFormat.exists_renderings`: the renderings are those of candidates kept in this way.
- `ExportFormat.renderings_append_cons`: which candidates can be left out.
-/

namespace Dichotomy

/-! ## Sorting by numbers -/

section Sorting

variable {β : Type} (number : β → Int)

/-- Entries in the order of their numbers; those with one number stay as they are. -/
def byNumber (entries : List β) : List β := entries.mergeSort fun x y => number x ≤ number y

theorem perm_byNumber (entries : List β) : (byNumber number entries).Perm entries :=
  List.mergeSort_perm _ _

private theorem number_le_trans (x y z : β) (hxy : decide (number x ≤ number y) = true)
    (hyz : decide (number y ≤ number z) = true) : decide (number x ≤ number z) = true :=
  decide_eq_true (Int.le_trans (of_decide_eq_true hxy) (of_decide_eq_true hyz))

private theorem number_le_total (x y : β) :
    (decide (number x ≤ number y) || decide (number y ≤ number x)) = true := by
  simpa using Int.le_total (number x) (number y)

theorem pairwise_byNumber (entries : List β) :
    (byNumber number entries).Pairwise fun x y => number x ≤ number y :=
  (List.pairwise_mergeSort (number_le_trans number) (number_le_total number) entries).imp
    fun h => of_decide_eq_true h

/-- There is one way to sort entries with numbers of their own. -/
theorem byNumber_eq_of_perm {number : β → Int} {entries entries' : List β}
    (hdistinct : (entries.map number).Nodup) (h : entries'.Perm entries) :
    byNumber number entries' = byNumber number entries := by
  have hmem := perm_byNumber number entries
  have hmem' := (perm_byNumber number entries').trans h
  refine (hmem'.trans hmem.symm).eq_of_pairwise (fun x y hx hy hxy hyx => ?_)
    (pairwise_byNumber number entries') (pairwise_byNumber number entries)
  exact List.inj_on_of_nodup_map hdistinct (hmem'.mem_iff.mp hx) (hmem.mem_iff.mp hy)
    (Int.le_antisymm hxy hyx)

/-- Only the numbers are compared, so it does not matter what is sorted along with them. -/
theorem byNumber_map {α : Type} (item : β → α) (entries : List β) :
    byNumber Prod.fst (entries.map fun x => (number x, item x)) =
      (byNumber number entries).map fun x => (number x, item x) := by
  refine (List.map_mergeSort ?_).symm
  exact fun _ _ _ _ => rfl

/-- Sorting puts an entry between those with lower numbers and the others. -/
theorem exists_byNumber_cons (x : β) (entries : List β) :
    ∃ l r, byNumber number (x :: entries) = l ++ x :: r ∧ byNumber number entries = l ++ r ∧
      (∀ y ∈ l, number y < number x) ∧ (∀ y ∈ r, number x ≤ number y) := by
  obtain ⟨l, r, hcons, hentries, hlower⟩ :=
    List.mergeSort_cons (number_le_trans number) (number_le_total number) x entries
  have hsorted := pairwise_byNumber number (x :: entries)
  rw [byNumber, hcons] at hsorted
  have hrest := (List.pairwise_cons.mp (List.pairwise_append.mp hsorted).2.1).1
  refine ⟨l, r, hcons, hentries, fun y hy => ?_, hrest⟩
  simpa using hlower y hy

variable {number}

/-- There is one place between lower numbers and the others. -/
theorem append_inj_of_bound {l r l' r' : List β} (bound : Int) (h : l ++ r = l' ++ r')
    (hl : ∀ y ∈ l, number y < bound) (hr : ∀ y ∈ r, bound ≤ number y)
    (hl' : ∀ y ∈ l', number y < bound) (hr' : ∀ y ∈ r', bound ≤ number y) : l = l' ∧ r = r' := by
  -- What stands between the two places is below the bound and is not.
  rcases List.append_eq_append_iff.mp h with ⟨between, rfl, rfl⟩ | ⟨between, rfl, rfl⟩
  · obtain rfl : between = [] := List.eq_nil_iff_forall_not_mem.mpr fun y hy =>
      Int.not_lt.mpr (hr y (List.mem_append_left _ hy)) (hl' y (List.mem_append_right _ hy))
    simp
  · obtain rfl : between = [] := List.eq_nil_iff_forall_not_mem.mpr fun y hy =>
      Int.not_lt.mpr (hr' y (List.mem_append_left _ hy)) (hl y (List.mem_append_right _ hy))
    simp

theorem byNumber_cons {x : β} {entries l r : List β} (h : byNumber number entries = l ++ r)
    (hl : ∀ y ∈ l, number y < number x) (hr : ∀ y ∈ r, number x ≤ number y) :
    byNumber number (x :: entries) = l ++ x :: r := by
  obtain ⟨l', r', hcons, hentries, hl', hr'⟩ := exists_byNumber_cons number x entries
  obtain ⟨rfl, rfl⟩ := append_inj_of_bound (number x) (h.symm.trans hentries) hl hr hl' hr'
  exact hcons

/-- Sorting one more entry keeps an entry apart from the others, which are sorted without it. -/
theorem byNumber_cons_apart (first : β) {x : β} {entries others l r : List β}
    (hentries : byNumber number entries = l ++ x :: r) (hothers : byNumber number others = l ++ r) :
    ∃ l' r', byNumber number (first :: entries) = l' ++ x :: r' ∧
      byNumber number (first :: others) = l' ++ r' ∧
      l ⊆ l' ∧ (number first ≤ number x → first ∈ l') := by
  obtain ⟨p, q, hcons, hsplit, hp, hq⟩ := exists_byNumber_cons number first entries
  have hput {u v : List β} (h : l ++ r = u ++ v) (hu : u ⊆ p) (hv : v ⊆ q) :
      byNumber number (first :: others) = u ++ first :: v :=
    byNumber_cons (hothers.trans h) (fun y hy => hp y (hu hy)) (fun y hy => hq y (hv hy))
  -- The first entry comes before `x` or behind it.
  rcases List.append_eq_append_iff.mp (hentries.symm.trans hsplit) with
    ⟨between, rfl, hx⟩ | ⟨between, rfl, rfl⟩
  · cases between with
    | nil =>
      obtain rfl : x :: r = q := by simpa using hx
      refine ⟨l ++ [first], r, by simpa using hcons, ?_, by simp, by simp⟩
      simpa using hput rfl (by simp) (by simp)
    | cons y between =>
      obtain ⟨rfl, rfl⟩ := List.cons_eq_cons.mp hx
      refine ⟨l, between ++ first :: q, by simpa using hcons, ?_, by simp, fun hle => ?_⟩
      · simpa using hput (u := l ++ between) (v := q) (by simp) (by simp) (by simp)
      · have hlt := hp x (by simp)
        omega
  · refine ⟨p ++ first :: between, r, by simpa using hcons, ?_, by simp, by simp⟩
    simpa using hput (u := p) (v := between ++ r) (by simp) (by simp) (by simp)

variable (number)

/-- An entry in the middle leaves the order of the others as it is.  Entries with lower numbers
    stand in front of it, and so do those before it with the same number. -/
theorem exists_byNumber_append (before : List β) (x : β) (after : List β) :
    ∃ l r, byNumber number (before ++ x :: after) = l ++ x :: r ∧
      byNumber number (before ++ after) = l ++ r ∧
      (∀ y ∈ before, number y ≤ number x → y ∈ l) ∧ (∀ y ∈ after, number y < number x → y ∈ l) := by
  induction before with
  | nil =>
    obtain ⟨l, r, hcons, hafter, -, hr⟩ := exists_byNumber_cons number x after
    refine ⟨l, r, hcons, hafter, by simp, fun y hy hlt => ?_⟩
    have hmem : y ∈ l ++ r := hafter ▸ (perm_byNumber number after).mem_iff.mpr hy
    exact (List.mem_append.mp hmem).resolve_right fun hright => Int.not_lt.mpr (hr y hright) hlt
  | cons first before ih =>
    obtain ⟨l, r, hwith, hwithout, hbefore, hafter⟩ := ih
    obtain ⟨l', r', hwith', hwithout', hsub, hfirst⟩ := byNumber_cons_apart first hwith hwithout
    refine ⟨l', r', hwith', hwithout', ?_, fun y hy hlt => hsub (hafter y hy hlt)⟩
    intro y hy hle
    rcases List.mem_cons.mp hy with rfl | hy
    · exact hfirst hle
    · exact hsub (hbefore y hy hle)

end Sorting

/-! ## Keeping one entry for each text -/

section Keeping

variable {β : Type} (number : β → Int) (text : β → String)

/-- Of some entries, one is kept for each text, with the lowest number. -/
structure KeepsFirst (entries kept : List β) : Prop where
  subset : kept ⊆ entries
  ascending : kept.Pairwise fun x y => number x ≤ number y
  distinct : kept.Pairwise fun x y => text x ≠ text y
  represents : ∀ x ∈ entries, ∃ y ∈ kept, text y = text x ∧ number y ≤ number x

theorem firstOfEach_sublist (seen : List String) (pairs : List (Int × String)) :
    (firstOfEach seen pairs).Sublist pairs := by
  induction pairs generalizing seen with
  | nil => exact .slnil
  | cons pair pairs ih =>
    rw [firstOfEach]
    split
    · exact (ih seen).cons pair
    · exact (ih _).cons_cons pair

/-- What is kept differs from what has been seen. -/
theorem notMem_of_mem_firstOfEach {seen : List String} {pairs : List (Int × String)}
    {pair : Int × String} (h : pair ∈ firstOfEach seen pairs) : pair.2 ∉ seen := by
  induction pairs generalizing seen with
  | nil => cases h
  | cons first pairs ih =>
    rw [firstOfEach] at h
    split at h
    next => exact ih h
    next hnew =>
      rcases List.mem_cons.mp h with rfl | h
      · simpa using hnew
      · exact fun hmem => ih h (List.mem_cons_of_mem _ hmem)

theorem pairwise_firstOfEach (seen : List String) (pairs : List (Int × String)) :
    (firstOfEach seen pairs).Pairwise fun x y => x.2 ≠ y.2 := by
  induction pairs generalizing seen with
  | nil => exact .nil
  | cons first pairs ih =>
    rw [firstOfEach]
    split
    · exact ih seen
    · refine List.pairwise_cons.mpr ⟨fun pair hpair heq => ?_, ih _⟩
      exact notMem_of_mem_firstOfEach hpair (heq ▸ List.mem_cons_self)

/-- Each text that has not been seen is kept, where it comes first. -/
theorem exists_mem_firstOfEach {seen : List String} {pairs : List (Int × String)}
    (hsorted : pairs.Pairwise fun x y => x.1 ≤ y.1) {pair : Int × String} (h : pair ∈ pairs)
    (hnew : pair.2 ∉ seen) :
    ∃ kept ∈ firstOfEach seen pairs, kept.2 = pair.2 ∧ kept.1 ≤ pair.1 := by
  induction pairs generalizing seen with
  | nil => cases h
  | cons first pairs ih =>
    obtain ⟨hfirst, hrest⟩ := List.pairwise_cons.mp hsorted
    rw [firstOfEach]
    by_cases hsame : first.2 = pair.2
    · -- The first entry has the text of the one looked for, and its number is not greater.
      have hle : first.1 ≤ pair.1 := by
        rcases List.mem_cons.mp h with rfl | h
        · exact Int.le_refl _
        · exact hfirst pair h
      rw [if_neg (by simpa [hsame] using hnew)]
      exact ⟨first, List.mem_cons_self, hsame, hle⟩
    · have hmem : pair ∈ pairs := by
        rcases List.mem_cons.mp h with rfl | h
        · exact absurd rfl hsame
        · exact h
      split
      · exact ih hrest hmem hnew
      · have hnew' : pair.2 ∉ first.2 :: seen := by
          rw [List.mem_cons, not_or]
          exact ⟨Ne.symm hsame, hnew⟩
        obtain ⟨kept, hkept, hsame, hle⟩ := ih hrest hmem hnew'
        exact ⟨kept, List.mem_cons_of_mem _ hkept, hsame, hle⟩

/-- Entries in the order of their numbers: one is kept for each text. -/
theorem exists_keepsFirst {entries : List β}
    (hsorted : entries.Pairwise fun x y => number x ≤ number y) :
    ∃ kept, firstOfEach [] (entries.map fun x => (number x, text x)) =
        kept.map (fun x => (number x, text x)) ∧
      KeepsFirst number text entries kept := by
  obtain ⟨kept, hsublist, hkept⟩ := List.sublist_map_iff.mp
    (firstOfEach_sublist [] (entries.map fun x => (number x, text x)))
  have hdistinct := pairwise_firstOfEach [] (entries.map fun x => (number x, text x))
  rw [hkept, List.pairwise_map] at hdistinct
  refine ⟨kept, hkept, hsublist.subset, hsorted.sublist hsublist, hdistinct, fun x hx => ?_⟩
  have hpairs : (entries.map fun x => (number x, text x)).Pairwise fun x y => x.1 ≤ y.1 :=
    List.pairwise_map.mpr hsorted
  obtain ⟨pair, hpair, htext, hle⟩ :=
    exists_mem_firstOfEach hpairs (List.mem_map_of_mem hx) List.not_mem_nil
  rw [hkept] at hpair
  obtain ⟨y, hy, rfl⟩ := List.mem_map.mp hpair
  exact ⟨y, hy, htext, hle⟩

/-- Renderings are made in the order of the numbers. -/
theorem distinctRenderings_eq {α ε : Type} (render : α → Except ε String)
    (items : List (Int × α)) :
    distinctRenderings render items = (do
      return firstOfEach [] (← (byNumber Prod.fst items).mapM fun pair => do
        return (pair.1, ← render pair.2))) := rfl

/-- Entries in any order are sorted first. -/
theorem exists_distinctRenderings {α ε : Type} {render : α → Except ε String} (item : β → α)
    {entries : List β} (hrender : ∀ x ∈ entries, render (item x) = .ok (text x)) :
    ∃ kept, distinctRenderings render (entries.map fun x => (number x, item x)) =
        .ok (kept.map fun x => (number x, text x)) ∧
      KeepsFirst number text entries kept := by
  have hperm := perm_byNumber number entries
  obtain ⟨kept, hkept, hkeeps⟩ := exists_keepsFirst number text (pairwise_byNumber number entries)
  have hrendered : ((byNumber number entries).map fun x => (number x, item x)).mapM
      (fun pair => do return (pair.1, ← render pair.2)) =
        .ok ((byNumber number entries).map fun x => (number x, text x)) := by
    rw [List.mapM_map]
    exact mapM_eq_ok fun x hx => by
      simp only [Function.comp_apply, hrender x (hperm.mem_iff.mp hx)]
      rfl
  refine ⟨kept, ?_, fun x hx => hperm.mem_iff.mp (hkeeps.subset hx), hkeeps.ascending,
    hkeeps.distinct, fun x hx => hkeeps.represents x (hperm.mem_iff.mpr hx)⟩
  rw [distinctRenderings_eq, byNumber_map, hrendered, ← hkept]
  rfl

end Keeping

/-! ## Leaving an item out -/

section LeavingOut

variable {α ε : Type}

/-- A text that has come before is not kept again. -/
theorem firstOfEach_append_cons {seen : List String} {l r : List (Int × String)}
    {pair : Int × String} (h : pair.2 ∈ seen ∨ pair.2 ∈ l.map Prod.snd) :
    firstOfEach seen (l ++ pair :: r) = firstOfEach seen (l ++ r) := by
  induction l generalizing seen with
  | nil =>
    have hseen : pair.2 ∈ seen := by simpa using h
    rw [List.nil_append, firstOfEach, if_pos (List.contains_iff_mem.mpr hseen), List.nil_append]
  | cons first l ih =>
    rw [List.map_cons, List.mem_cons] at h
    rw [List.cons_append, List.cons_append, firstOfEach, firstOfEach]
    split
    next hfirst =>
      apply ih
      rcases h with hseen | heq | hmem
      · exact .inl hseen
      · exact .inl (heq ▸ List.contains_iff_mem.mp hfirst)
      · exact .inr hmem
    next =>
      rw [ih]
      rcases h with hseen | heq | hmem
      · exact .inl (List.mem_cons_of_mem _ hseen)
      · exact .inl (heq ▸ List.mem_cons_self)
      · exact .inr hmem

/-- **Leaving an item out**: an item that is rendered like one with a lower number, or like one
    before it with the same number, changes nothing. -/
theorem distinctRenderings_append_cons {render : α → Except ε String} {x y : Int × α}
    {before after : List (Int × α)} (hsame : render y.2 = render x.2)
    (h : y ∈ before ∧ y.1 ≤ x.1 ∨ y ∈ after ∧ y.1 < x.1) :
    distinctRenderings render (before ++ x :: after) =
      distinctRenderings render (before ++ after) := by
  obtain ⟨l, r, hwith, hwithout, hbefore, hafter⟩ :=
    exists_byNumber_append Prod.fst before x after
  have hmem : y ∈ l := h.elim (fun h => hbefore y h.1 h.2) (fun h => hafter y h.1 h.2)
  rw [distinctRenderings_eq, distinctRenderings_eq, hwith, hwithout, List.mapM_append,
    List.mapM_append, List.mapM_cons]
  cases hl : l.mapM fun pair : Int × α => do return (pair.1, ← render pair.2) with
  | error fault => rfl
  | ok first =>
    obtain ⟨pair, hpair, hy⟩ := exists_of_mapM_eq_ok hl y hmem
    obtain ⟨text, htext, hy⟩ := exists_of_bind_eq_ok hy
    obtain rfl : (y.1, text) = pair := Except.ok.inj hy
    rw [← hsame, htext]
    cases r.mapM fun pair : Int × α => do return (pair.1, ← render pair.2) with
    | error fault => rfl
    | ok rest =>
      apply congrArg Except.ok
      apply firstOfEach_append_cons
      exact .inr (List.mem_map.mpr ⟨_, hpair, rfl⟩)

end LeavingOut

/-! ## Renderings of candidates -/

/-- If all candidates can be rendered, the renderings are those of one candidate for each text. -/
theorem ExportFormat.exists_renderings (format : ExportFormat) {candidates : List Candidate}
    (name : String) (names : List String) {text : Candidate → String}
    (h : ∀ c ∈ candidates, format.body name names c.root = .ok (text c)) :
    ∃ kept, format.renderings candidates name names =
        .ok (kept.map fun c => format.complete name names c.id (text c)) ∧
      KeepsFirst Candidate.id text candidates kept := by
  obtain ⟨kept, hkept, hkeeps⟩ := exists_distinctRenderings Candidate.id text Candidate.root h
  refine ⟨kept, ?_, hkeeps⟩
  rw [renderings, hkept]
  show Except.ok ((kept.map fun c => (c.id, text c)).map
    fun pair => format.complete name names pair.1 pair.2) = _
  rw [List.map_map]
  rfl

/-- A candidate that comes out like one with a lower number, or like one before it with the same
    number, is not rendered. -/
theorem ExportFormat.renderings_append_cons {format : ExportFormat} {first second : Candidate}
    {before after : List Candidate} {name : String} {names : List String}
    (hsame : format.body name names first.root = format.body name names second.root)
    (h : first ∈ before ∧ first.id ≤ second.id ∨ first ∈ after ∧ first.id < second.id) :
    format.renderings (before ++ second :: after) name names =
      format.renderings (before ++ after) name names := by
  have hpair {candidates : List Candidate} (hmem : first ∈ candidates) :
      (first.id, first.root) ∈ candidates.map fun c => (c.id, c.root) :=
    List.mem_map_of_mem hmem
  rw [renderings, renderings, List.map_append, List.map_cons, List.map_append,
    distinctRenderings_append_cons (y := (first.id, first.root)) hsame
      (h.imp (And.imp_left hpair) (And.imp_left hpair))]

/-- Of two candidates with one text, the first is rendered. -/
theorem ExportFormat.renderings_pair {format : ExportFormat} {first second : Candidate}
    {name text : String} {names : List String} (hid : first.id ≤ second.id)
    (hfirst : format.body name names first.root = .ok text)
    (hsecond : format.body name names second.root = .ok text) :
    format.renderings [first, second] name names =
      .ok [format.complete name names first.id text] := by
  have hsame := hfirst.trans hsecond.symm
  have hsingle : format.renderings [first] name names =
      .ok [format.complete name names first.id text] := by
    simp [renderings, distinctRenderings, hfirst, firstOfEach, bind, Except.bind, pure, Except.pure]
  rw [← hsingle]
  exact @renderings_append_cons format first second [first] [] name names hsame
    (.inl ⟨List.mem_singleton_self first, hid⟩)

end Dichotomy
