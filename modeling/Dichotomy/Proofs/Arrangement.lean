import Dichotomy.Proofs.Rearrangement
import Dichotomy.Proofs.SwapCycles
import Dichotomy.Search.Arrangement

/-!
# All arrangements

Each swap of the places of a list is read as a permutation of the places, and what a sequence of
swaps does is their product.  The swaps of one level come in phases: between two phases the last
place is swapped with another one, and in each phase all arrangements of the places before it are
gone through.  So all arrangements are met as soon as every entry stands in the last place before
some phase.

## Main statements

- `exists_phases_apply`: every place gets to the end before some phase.
- `exists_front`: every arrangement of the first places is met on the way.
- `mem_arrangements`: the listed orders are the arrangements of the inputs.
-/

namespace Dichotomy

open Equiv

/-! ## Swaps as permutations of places -/

/-- Where the entries come from when some swaps have been carried out one after the other. -/
def places (swaps : List (Nat × Nat)) : Perm ℕ :=
  (swaps.map fun positions => swap positions.1 positions.2).prod

@[simp] theorem places_nil : places [] = 1 := rfl

@[simp] theorem places_cons (positions : Nat × Nat) (swaps : List (Nat × Nat)) :
    places (positions :: swaps) = swap positions.1 positions.2 * places swaps := by
  rw [places, List.map_cons, List.prod_cons, places]

@[simp] theorem places_append (swaps swaps' : List (Nat × Nat)) :
    places (swaps ++ swaps') = places swaps * places swaps' := by
  rw [places, List.map_append, List.prod_append, places, places]

/-- Swaps of places below a bound. -/
def Below (bound : Nat) (swaps : List (Nat × Nat)) : Prop :=
  ∀ positions ∈ swaps, positions.1 < bound ∧ positions.2 < bound

theorem Below.mono {bound bound' : Nat} {swaps : List (Nat × Nat)} (h : Below bound swaps)
    (hle : bound ≤ bound') : Below bound' swaps := fun positions hpositions =>
  ⟨Nat.lt_of_lt_of_le (h positions hpositions).1 hle,
    Nat.lt_of_lt_of_le (h positions hpositions).2 hle⟩

theorem places_apply_of_le {bound p : Nat} {swaps : List (Nat × Nat)} (h : Below bound swaps)
    (hp : bound ≤ p) : places swaps p = p := by
  induction swaps with
  | nil => rfl
  | cons positions swaps ih =>
    obtain ⟨hfirst, hsecond⟩ := h positions List.mem_cons_self
    rw [places_cons, Perm.mul_apply, ih fun s hs => h s (List.mem_cons_of_mem _ hs),
      swap_apply_of_ne_of_ne (by omega) (by omega)]

/-! ## Swaps carried out on a list -/

section Lists

variable {α : Type}

/-- A list after some swaps. -/
def swappedAll (xs : List α) (swaps : List (Nat × Nat)) : List α := swaps.foldl swapped xs

theorem swapped_eq {xs : List α} {positions : Nat × Nat} (h : positions.1 < xs.length)
    (h' : positions.2 < xs.length) :
    swapped xs positions =
      (xs.set positions.1 xs[positions.2]).set positions.2 xs[positions.1] := by
  rw [swapped, List.getElem?_eq_getElem h, List.getElem?_eq_getElem h']

theorem perm_swapped (xs : List α) (positions : Nat × Nat) : (swapped xs positions).Perm xs := by
  by_cases h : positions.1 < xs.length ∧ positions.2 < xs.length
  · rw [swapped_eq h.1 h.2]
    exact List.set_set_perm h.1 h.2
  · -- A position outside the list leaves it as it is.
    rw [swapped]
    split
    next x y hx hy =>
      obtain ⟨hx, -⟩ := List.getElem?_eq_some_iff.mp hx
      obtain ⟨hy, -⟩ := List.getElem?_eq_some_iff.mp hy
      exact absurd ⟨hx, hy⟩ h
    next => exact .refl _

theorem perm_swappedAll (xs : List α) (swaps : List (Nat × Nat)) :
    (swappedAll xs swaps).Perm xs := by
  induction swaps generalizing xs with
  | nil => exact .refl _
  | cons positions swaps ih => exact (ih _).trans (perm_swapped xs positions)

theorem getElem?_swapped {xs : List α} {positions : Nat × Nat} (h : positions.1 < xs.length)
    (h' : positions.2 < xs.length) (p : Nat) :
    (swapped xs positions)[p]? = xs[swap positions.1 positions.2 p]? := by
  rw [swapped_eq h h', List.getElem?_set, List.getElem?_set, List.length_set, swap_apply_def]
  -- The second position is written last, so it is looked at first.
  by_cases hsecond : positions.2 = p
  · subst hsecond
    by_cases hfirst : positions.2 = positions.1
    · simp [hfirst, h]
    · simp [hfirst, h, h']
  · by_cases hfirst : positions.1 = p
    · subst hfirst
      simp [hsecond, h, h']
    · simp [hfirst, hsecond, Ne.symm hfirst, Ne.symm hsecond]

/-- Swaps carry entries as the permutation of the places says. -/
theorem getElem?_swappedAll {xs : List α} {swaps : List (Nat × Nat)} (h : Below xs.length swaps)
    (p : Nat) : (swappedAll xs swaps)[p]? = xs[places swaps p]? := by
  induction swaps generalizing xs with
  | nil => rfl
  | cons positions swaps ih =>
    obtain ⟨hfirst, hsecond⟩ := h positions List.mem_cons_self
    have hrest : Below (swapped xs positions).length swaps := by
      rw [(perm_swapped xs positions).length_eq]
      exact fun s hs => h s (List.mem_cons_of_mem _ hs)
    have hswaps : swappedAll xs (positions :: swaps) = swappedAll (swapped xs positions) swaps :=
      rfl
    rw [hswaps, ih hrest, getElem?_swapped hfirst hsecond, places_cons, Perm.mul_apply]

theorem swapped_append {xs : List α} {positions : Nat × Nat} (h : positions.1 < xs.length)
    (h' : positions.2 < xs.length) (zs : List α) :
    swapped (xs ++ zs) positions = swapped xs positions ++ zs := by
  have hlong {p : Nat} (hp : p < xs.length) : p < (xs ++ zs).length := by
    rw [List.length_append]
    omega
  rw [swapped_eq h h', swapped_eq (hlong h) (hlong h'), List.getElem_append_left h,
    List.getElem_append_left h', List.set_append_left _ _ h, List.set_append_left]
  rwa [List.length_set]

/-- Swaps of the first places leave the others alone. -/
theorem swappedAll_append {xs : List α} {swaps : List (Nat × Nat)} (h : Below xs.length swaps)
    (zs : List α) : swappedAll (xs ++ zs) swaps = swappedAll xs swaps ++ zs := by
  induction swaps generalizing xs with
  | nil => rfl
  | cons positions swaps ih =>
    obtain ⟨hfirst, hsecond⟩ := h positions List.mem_cons_self
    have hrest : Below (swapped xs positions).length swaps := by
      rw [(perm_swapped xs positions).length_eq]
      exact fun s hs => h s (List.mem_cons_of_mem _ hs)
    have hswaps (ys : List α) :
        swappedAll ys (positions :: swaps) = swappedAll (swapped ys positions) swaps := rfl
    rw [hswaps, hswaps, swapped_append hfirst hsecond, ih hrest]

end Lists

/-! ## Phases -/

/-- One phase: all arrangements of the first `m` places, and the swap that follows. -/
def phase (m i : Nat) : List (Nat × Nat) := swapsOf m ++ [(m, if m % 2 = 1 then i else 0)]

/-- The first `j` phases. -/
def phases (m j : Nat) : List (Nat × Nat) := (List.range j).flatMap (phase m)

@[simp] theorem phases_zero (m : Nat) : phases m 0 = [] := rfl

theorem phases_succ (m j : Nat) : phases m (j + 1) = phases m j ++ phase m j := by
  simp [phases, List.range_succ]

/-- The swaps of a level are `m` phases and the arrangements of the first `m` places once more. -/
theorem swapsOf_succ (m : Nat) : swapsOf (m + 1) = phases m m ++ swapsOf m := by
  have hshift : ∀ j : Nat, swapsOf m ++ (List.range j).flatMap
      (fun i => (m, if m % 2 = 1 then i else 0) :: swapsOf m) = phases m j ++ swapsOf m := by
    intro j
    -- Taking the arrangements into the phases one phase later leaves them at the end.
    induction j with
    | zero => simp
    | succ j ih =>
      rw [List.range_succ, List.flatMap_append, ← List.append_assoc, ih, phases_succ]
      simp [phase]
  rw [swapsOf, hshift]

theorem below_swapsOf (m : Nat) : Below m (swapsOf m) := by
  induction m with
  | zero => exact fun _ h => absurd h List.not_mem_nil
  | succ m ih =>
    intro positions hpositions
    rw [swapsOf_succ, List.mem_append, phases, List.mem_flatMap] at hpositions
    rcases hpositions with ⟨i, hi, hmem⟩ | hmem
    · rw [List.mem_range] at hi
      rcases List.mem_append.mp hmem with hmem | hmem
      · exact ih.mono (Nat.le_succ m) positions hmem
      · obtain rfl := List.mem_singleton.mp hmem
        simp only
        split <;> omega
    · exact ih.mono (Nat.le_succ m) positions hmem

theorem phases_isPrefix_phases {m j j' : Nat} (h : j ≤ j') :
    phases m j ++ swapsOf m <+: phases m j' ++ swapsOf m := by
  induction j', h using Nat.le_induction with
  | base => exact List.prefix_refl _
  | succ j' _ ih =>
    refine ih.trans ?_
    rw [phases_succ, phase, ← List.append_assoc, List.append_assoc _ _ (swapsOf m)]
    exact List.prefix_append _ _

theorem below_phases {m j : Nat} (h : j ≤ m) : Below (m + 1) (phases m j) := by
  intro positions hpositions
  refine below_swapsOf (m + 1) positions ?_
  rw [swapsOf_succ]
  exact (phases_isPrefix_phases h).subset (List.mem_append_left _ hpositions)

/-! ## Where the places get -/

theorem places_phases_of_even {m : Nat} (hm : m % 2 = 0) (j : Nat) :
    places (phases m j) = (places (swapsOf m) * swap m 0) ^ j := by
  induction j with
  | zero => rfl
  | succ j ih =>
    have hplace : (if m % 2 = 1 then j else 0) = 0 := if_neg (by omega)
    rw [phases_succ, places_append, ih, phase, hplace, pow_succ]
    simp

/-- Exchanging the ends keeps places below the bound. -/
theorem swap_lt {m p : Nat} (hp : p < m) : swap 0 (m - 1) p < m := by
  rw [swap_apply_def]
  split
  · omega
  · split <;> omega

theorem swap_pow_of_odd (x y : ℕ) {k : ℕ} (hk : k % 2 = 1) : swap x y ^ k = swap x y := by
  obtain ⟨half, rfl⟩ : ∃ half, k = 2 * half + 1 := ⟨k / 2, by omega⟩
  rw [pow_succ, pow_mul, pow_two, swap_mul_self, one_pow, one_mul]

/-- By its phase, an end has been moved an odd number of times. -/
theorem swap_pow_apply {m : Nat} (hm : m % 2 = 1) {j : Nat} (hj : j < m) :
    (swap 0 (m - 1) ^ (j + 1)) j = swap 0 (m - 1) j := by
  by_cases hends : j = 0 ∨ j = m - 1
  · -- The first end is moved once, the last one `m` times.
    rcases hends with rfl | hlast
    · rw [zero_add, pow_one]
    · rw [swap_pow_of_odd 0 (m - 1) (by omega : (j + 1) % 2 = 1)]
  · have hself : swap 0 (m - 1) j = j := swap_apply_of_ne_of_ne (by omega) (by omega)
    rw [hself]
    exact Perm.pow_apply_eq_self_of_apply_eq_self hself _

theorem places_phases_of_odd {m : Nat} (hm : m % 2 = 1)
    (hplaces : places (swapsOf m) = swap 0 (m - 1)) {j : Nat} (hj : j ≤ m) :
    places (phases m j) = wheel (swap 0 (m - 1)) m j * swap 0 (m - 1) ^ j := by
  induction j with
  | zero => rfl
  | succ j ih =>
    have hplace : (if m % 2 = 1 then j else 0) = j := if_pos hm
    have hlast : (swap 0 (m - 1) ^ (j + 1)) m = m :=
      Perm.pow_apply_eq_self_of_apply_eq_self
        (swap_apply_of_ne_of_ne (by omega) (by omega)) _
    have hphase : places (phase m j) = swap 0 (m - 1) * swap m j := by
      rw [phase, hplace, places_append, hplaces]
      simp
    calc places (phases m (j + 1))
        = wheel (swap 0 (m - 1)) m j * (swap 0 (m - 1) ^ (j + 1) * swap m j) := by
          rw [phases_succ, places_append, ih (by omega), hphase, pow_succ]
          simp only [mul_assoc]
      _ = wheel (swap 0 (m - 1)) m (j + 1) * swap 0 (m - 1) ^ (j + 1) := by
          rw [mul_swap_eq_swap_mul, hlast, swap_pow_apply hm (by omega), wheel, mul_assoc]

/-- **The places after all arrangements**: the ends of an odd number of places are exchanged, and
    an even number of places moves on along one cycle. -/
theorem places_swapsOf (m : Nat) :
    (m % 2 = 1 → places (swapsOf m) = swap 0 (m - 1)) ∧
      (m % 2 = 0 → (places (swapsOf m)).IsCycleOn (Finset.range m)) := by
  induction m with
  | zero =>
    refine ⟨fun h => absurd h (by decide), fun _ => ?_⟩
    rw [Finset.range_zero, Finset.coe_empty]
    exact Perm.isCycleOn_empty
  | succ m ih =>
    rw [swapsOf_succ, places_append]
    constructor
    · intro hodd
      -- With an even number of places below, the same swap follows every phase.
      have heven : m % 2 = 0 := by omega
      rw [places_phases_of_even heven, Nat.add_sub_cancel]
      rcases Nat.eq_zero_or_pos m with rfl | hpos
      · rw [pow_zero, one_mul, swap_self]
        rfl
      · exact turn_pow_mul (ih.2 heven) hpos fun p hp => places_apply_of_le (below_swapsOf m) hp
    · intro heven
      -- With an odd number, the ends below are exchanged an even number of times.
      have hodd : m % 2 = 1 := by omega
      have hplaces := ih.1 hodd
      have hlast : swap 0 (m - 1) m = m := swap_apply_of_ne_of_ne (by omega) (by omega)
      have hcancel : swap 0 (m - 1) ^ m * swap 0 (m - 1) = 1 := by
        rw [swap_pow_of_odd _ _ hodd, swap_mul_self]
      have himage : (Finset.range m).image (swap 0 (m - 1)) = Finset.range m := by
        refine Finset.eq_of_subset_of_card_le ?_ ?_
        · intro p hp
          obtain ⟨q, hq, rfl⟩ := Finset.mem_image.mp hp
          exact Finset.mem_range.mpr (swap_lt (Finset.mem_range.mp hq))
        · rw [Finset.card_image_of_injective _ (Equiv.injective _)]
      have hcycle := isCycleOn_wheel hlast (Nat.le_refl m)
      rw [himage, ← Finset.range_add_one] at hcycle
      rw [places_phases_of_odd hodd hplaces (Nat.le_refl m), hplaces, mul_assoc, hcancel, mul_one]
      exact hcycle

/-- Every place gets to the end before some phase. -/
theorem exists_phases_apply {m p : Nat} (hp : p ≤ m) : ∃ j ≤ m, places (phases m j) m = p := by
  rcases Nat.mod_two_eq_zero_or_one m with heven | hodd
  · rcases Nat.eq_zero_or_pos m with rfl | hpos
    · exact ⟨0, Nat.le_refl 0, (Nat.le_zero.mp hp).symm⟩
    · obtain ⟨j, hj, hjp⟩ := exists_turn_pow_eq ((places_swapsOf m).2 heven) hpos
        (places_apply_of_le (below_swapsOf m) (Nat.le_refl m)) hp
      exact ⟨j, hj, by rw [places_phases_of_even heven, hjp]⟩
  · rcases Nat.lt_or_eq_of_le hp with hlt | rfl
    · -- The phase is the one whose swap takes the place that `p` is exchanged with.
      have hlast : swap 0 (m - 1) m = m := swap_apply_of_ne_of_ne (by omega) (by omega)
      have hpartner := swap_lt hlt
      refine ⟨swap 0 (m - 1) p + 1, hpartner, ?_⟩
      rw [places_phases_of_odd hodd ((places_swapsOf m).1 hodd) hpartner, Perm.mul_apply,
        Perm.pow_apply_eq_self_of_apply_eq_self hlast, wheel_succ_apply hlast hpartner,
        swap_apply_self]
    · exact ⟨0, Nat.zero_le p, rfl⟩

/-! ## All arrangements are met -/

/-- **Every arrangement of the first places is met**, and the other places stay as they are. -/
theorem exists_front {α : Type} {m : Nat} {xs ys : List α} (hlen : xs.length = m)
    (hperm : ys.Perm xs) (zs : List α) :
    ∃ front, front <+: swapsOf m ∧ swappedAll (xs ++ zs) front = ys ++ zs := by
  induction m generalizing xs ys zs with
  | zero =>
    obtain rfl := List.length_eq_zero_iff.mp hlen
    obtain rfl := List.perm_nil.mp hperm
    exact ⟨[], List.nil_prefix, rfl⟩
  | succ m ih =>
    -- The last entry of the arrangement comes from some place, which gets to the end.
    rcases List.eq_nil_or_concat' ys with rfl | ⟨ys, z, rfl⟩
    · rw [← hperm.length_eq] at hlen
      cases hlen
    · obtain ⟨p, hp⟩ := List.mem_iff_getElem?.mp (hperm.mem_iff.mp (by simp : z ∈ ys ++ [z]))
      obtain ⟨hplt, -⟩ := List.getElem?_eq_some_iff.mp hp
      obtain ⟨j, hj, hjp⟩ := exists_phases_apply (show p ≤ m by omega)
      have hbelow : Below xs.length (phases m j) := by
        rw [hlen]
        exact below_phases hj
      have hlast : (swappedAll xs (phases m j))[m]? = some z := by
        rw [getElem?_swappedAll hbelow, hjp, hp]
      have hmet := perm_swappedAll xs (phases m j)
      -- In the phase that follows, the places before it take all arrangements.
      rcases List.eq_nil_or_concat' (swappedAll xs (phases m j)) with hnil | ⟨xs', w, hconcat⟩
      · rw [hnil] at hlast
        cases hlast
      · rw [hconcat] at hlast hmet
        have hlen' : xs'.length = m := by
          have hlength := hmet.length_eq
          rw [List.length_append, List.length_singleton] at hlength
          omega
        obtain rfl : w = z := by
          rw [List.getElem?_append_right (by omega), hlen', Nat.sub_self] at hlast
          exact Option.some.inj hlast
        have hperm' : ys.Perm xs' :=
          (List.perm_append_right_iff [w]).mp (hperm.trans hmet.symm)
        obtain ⟨front, hfront, heq⟩ := ih hlen' hperm' (w :: zs)
        refine ⟨phases m j ++ front, ?_, ?_⟩
        · rw [swapsOf_succ]
          exact ((List.prefix_append_right_inj _).mpr hfront).trans (phases_isPrefix_phases hj)
        · have hsplit : swappedAll (xs ++ zs) (phases m j ++ front) =
              swappedAll (swappedAll (xs ++ zs) (phases m j)) front := List.foldl_append
          rw [hsplit, swappedAll_append hbelow, hconcat, List.append_assoc, List.append_assoc]
          exact heq

/-- The listed orders are the arrangements of the inputs. -/
theorem mem_arrangements {n : Int} {order : List Int} :
    order ∈ arrangements n ↔ order.Perm (inputNumbers n) := by
  constructor
  · intro hmem
    obtain ⟨i, hi⟩ := List.mem_iff_getElem?.mp hmem
    rw [arrangements, List.getElem?_scanl] at hi
    split at hi
    · obtain rfl := Option.some.inj hi
      exact perm_swappedAll _ _
    · cases hi
  · intro hperm
    have hlen : (inputNumbers n).length = n.toNat := by simp [inputNumbers]
    obtain ⟨front, hfront, heq⟩ := exists_front hlen hperm []
    rw [List.append_nil, List.append_nil] at heq
    refine List.mem_iff_getElem?.mpr ⟨front.length, ?_⟩
    rw [arrangements, List.getElem?_scanl, if_pos hfront.length_le,
      ← List.prefix_iff_eq_take.mp hfront]
    exact congrArg some heq

end Dichotomy
