import Dichotomy.Proofs.Arrangement
import Mathlib.Data.Nat.Factorial.Basic

/-!
# Counting swaps

The swaps that lead through all arrangements need not be written down beforehand.  Each place has
a counter of the swaps it has made with places before it.  The first place from `1` on that has
made fewer swaps than its number makes the next one; places that have made all of theirs begin
again at `0` on the way.

## Main statements

- `ordersAfter_one`: with counters at `0`, a number of places goes through its swaps and then hands
  over to the next place.
- `cons_ordersAfter_eq_arrangements`: counting leads through the listed arrangements.
-/

namespace Dichotomy

/-! ## The swaps that are left -/

/-- The swaps that counters leave, the first counter belonging to the place `first`: with each swap
    of a place, all arrangements of the places before it are gone through. -/
def swapsLeft (first : Nat) : List Nat → Nat
  | [] => 0
  | count :: counters => (first - count) * first.factorial + swapsLeft (first + 1) counters

theorem swapsLeft_set (first : Nat) {i count : Nat} {counters : List Nat}
    (h : counters[i]? = some count) (count' : Nat) :
    swapsLeft first (counters.set i count') + (first + i - count) * (first + i).factorial =
      swapsLeft first counters + (first + i - count') * (first + i).factorial := by
  induction counters generalizing first i with
  | nil => cases h
  | cons head counters ih =>
    cases i with
    | zero =>
      obtain rfl : head = count := Option.some.inj h
      simp only [List.set_cons_zero, swapsLeft, Nat.add_zero]
      omega
    | succ i =>
      have hrest := ih (first + 1) h
      rw [show first + 1 + i = first + (i + 1) by omega] at hrest
      simp only [List.set_cons_succ, swapsLeft]
      omega

/-- The swaps that are left when it is the turn of a place: what the places before it would still
    have counted is missing from the counters. -/
def turnsLeft (counters : List Nat) (place : Nat) : Nat :=
  swapsLeft 0 counters + (counters.length.factorial - place.factorial)

section Turns

variable {counters : List Nat} {place count : Nat}

theorem turnsLeft_swap (h : counters[place]? = some count) (hlt : count < place) :
    turnsLeft (counters.set place (count + 1)) 1 < turnsLeft counters place := by
  obtain ⟨hplace, -⟩ := List.getElem?_eq_some_iff.mp h
  have hset := swapsLeft_set 0 h (count + 1)
  have hcount : 0 + place - count = (0 + place - (count + 1)) + 1 := by omega
  have hfactorial : place.factorial < counters.length.factorial :=
    (Nat.factorial_lt (by omega)).mpr hplace
  -- The counter loses `place!` swaps, of which the places before it may make up for all but one.
  rw [hcount, Nat.add_mul, Nat.one_mul, Nat.zero_add] at hset
  rw [turnsLeft, turnsLeft, List.length_set, Nat.factorial_one]
  omega

theorem turnsLeft_reset (h : counters[place]? = some count) (hle : place ≤ count) :
    turnsLeft (counters.set place 0) (place + 1) = turnsLeft counters place := by
  obtain ⟨hplace, -⟩ := List.getElem?_eq_some_iff.mp h
  have hset := swapsLeft_set 0 h 0
  have hcount : 0 + place - count = 0 := by omega
  have hsucc : (place + 1).factorial = place * place.factorial + place.factorial := by
    rw [Nat.factorial_succ, Nat.add_mul, Nat.one_mul]
  have hfactorial : (place + 1).factorial ≤ counters.length.factorial :=
    Nat.factorial_le hplace
  -- What the counter gains by beginning again is what the next place takes off for its turn.
  rw [hcount, Nat.zero_mul, Nat.zero_add, Nat.sub_zero] at hset
  rw [turnsLeft, turnsLeft, List.length_set]
  omega

end Turns

/-! ## The orders that are still to come -/

variable {α : Type}

/-- The arrangements that follow when it is the turn of a place: a place that has made fewer swaps
    than its number makes one and gives the turn back to place `1`, any other one begins again and
    gives the turn to the next place. -/
def ordersAfter (order : List α) (counters : List Nat) (place : Nat) : List (List α) :=
  match _h : counters[place]? with
  | none => []
  | some count =>
    if _hlt : count < place then
      let next := swapped order (place, if place % 2 = 1 then count else 0)
      next :: ordersAfter next (counters.set place (count + 1)) 1
    else ordersAfter order (counters.set place 0) (place + 1)
termination_by (turnsLeft counters place, counters.length - place)
decreasing_by
  · exact Prod.Lex.left _ _ (turnsLeft_swap _h _hlt)
  · -- Beginning again takes no swap, but the turn has moved on.
    obtain ⟨hplace, -⟩ := List.getElem?_eq_some_iff.mp _h
    rw [turnsLeft_reset _h (Nat.le_of_not_lt _hlt), List.length_set]
    exact Prod.Lex.right _ (by omega)

section Orders

variable {order : List α} {counters : List Nat} {place count : Nat}

theorem ordersAfter_of_length_le (h : counters.length ≤ place) :
    ordersAfter order counters place = [] := by
  rw [ordersAfter]
  split
  next => rfl
  next count hcount =>
    rw [List.getElem?_eq_none h] at hcount
    cases hcount

theorem ordersAfter_swap (h : counters[place]? = some count) (hlt : count < place) :
    ordersAfter order counters place =
      swapped order (place, if place % 2 = 1 then count else 0) ::
        ordersAfter (swapped order (place, if place % 2 = 1 then count else 0))
          (counters.set place (count + 1)) 1 := by
  rw [ordersAfter]
  split
  next hnone =>
    rw [h] at hnone
    cases hnone
  next count' hcount =>
    obtain rfl : count = count' := Option.some.inj (h.symm.trans hcount)
    rw [dif_pos hlt]

theorem ordersAfter_reset (h : counters[place]? = some count) (hle : place ≤ count) :
    ordersAfter order counters place = ordersAfter order (counters.set place 0) (place + 1) := by
  rw [ordersAfter]
  split
  next hnone =>
    rw [h] at hnone
    cases hnone
  next count' hcount =>
    obtain rfl : count = count' := Option.some.inj (h.symm.trans hcount)
    rw [dif_neg (Nat.not_lt_of_le hle)]

end Orders

/-! ## Counting follows the schedule -/

/-- The arrangements that some swaps lead through. -/
def met (order : List α) (swaps : List (Nat × Nat)) : List (List α) :=
  (swaps.scanl swapped order).tail

@[simp] theorem met_nil (order : List α) : met order [] = [] := rfl

theorem cons_met (order : List α) (swaps : List (Nat × Nat)) :
    order :: met order swaps = swaps.scanl swapped order := by
  cases swaps with
  | nil => rw [met_nil, List.scanl_nil]
  | cons positions swaps => rw [met, List.scanl_cons, List.tail_cons]

theorem met_cons (order : List α) (positions : Nat × Nat) (swaps : List (Nat × Nat)) :
    met order (positions :: swaps) =
      swapped order positions :: met (swapped order positions) swaps := by
  rw [cons_met, met, List.scanl_cons, List.tail_cons]

theorem met_append (order : List α) (swaps swaps' : List (Nat × Nat)) :
    met order (swaps ++ swaps') = met order swaps ++ met (swappedAll order swaps) swaps' := by
  induction swaps generalizing order with
  | nil => rfl
  | cons positions swaps ih =>
    rw [List.cons_append, met_cons, met_cons, ih]
    rfl

/-- The swaps of a place from a count on, each followed by those of the places before it. -/
def turns (place count left : Nat) : List (Nat × Nat) :=
  (List.range' count left).flatMap fun i =>
    (place, if place % 2 = 1 then i else 0) :: swapsOf place

theorem turns_succ (place count left : Nat) :
    turns place count (left + 1) =
      (place, if place % 2 = 1 then count else 0) ::
        (swapsOf place ++ turns place (count + 1) left) := by
  rw [turns, List.range'_succ, List.flatMap_cons, turns, List.cons_append]

theorem swapsOf_succ_eq_turns (m : Nat) : swapsOf (m + 1) = swapsOf m ++ turns m 0 m := by
  rw [swapsOf, turns, List.range_eq_range']

/-- The places before `m` have gone through their swaps whenever the turn comes to `m`. -/
def GoesThrough (α : Type) (m : Nat) : Prop :=
  ∀ (order : List α) (counters : List Nat), (∀ j < m, counters[j]? = some 0) →
    ordersAfter order counters 1 =
      met order (swapsOf m) ++ ordersAfter (swappedAll order (swapsOf m)) counters m

/-- The turns of one place, from a count on: after the last one its counter begins again. -/
theorem ordersAfter_turns {m : Nat} (hm : GoesThrough α m) {count left : Nat}
    (hleft : count + left = m) (order : List α) {counters : List Nat}
    (hcount : counters[m]? = some count) (hzero : ∀ j < m, counters[j]? = some 0) :
    ordersAfter order counters m =
      met order (turns m count left) ++
        ordersAfter (swappedAll order (turns m count left)) (counters.set m 0) (m + 1) := by
  induction left generalizing count order counters with
  | zero => exact ordersAfter_reset hcount (by omega)
  | succ left ih =>
    obtain ⟨hlt, -⟩ := List.getElem?_eq_some_iff.mp hcount
    have hnext : (counters.set m (count + 1))[m]? = some (count + 1) :=
      List.getElem?_set_self hlt
    have hstill : ∀ j < m, (counters.set m (count + 1))[j]? = some 0 := by
      intro j hj
      rw [List.getElem?_set_ne (by omega), hzero j hj]
    have hrest := ih (by omega) (swappedAll (swapped order
      (m, if m % 2 = 1 then count else 0)) (swapsOf m)) hnext hstill
    -- One swap, all swaps of the places before it, and then the turns that are left.
    rw [ordersAfter_swap hcount (by omega), hm _ _ hstill, hrest, List.set_set, turns_succ,
      met_cons, met_append, List.cons_append, List.append_assoc]
    simp only [swappedAll, List.foldl_cons, List.foldl_append]

/-- **Counting goes through the swaps**: from counters at `0`, the places before `m` make all their
    swaps before it is the turn of `m`. -/
theorem ordersAfter_one {m : Nat} (hm : 1 ≤ m) : GoesThrough α m := by
  induction m, hm using Nat.le_induction with
  | base => exact fun _ _ _ => rfl
  | succ m hm ih =>
    intro order counters hzero
    have hbefore : ∀ j < m, counters[j]? = some 0 := fun j hj => hzero j (by omega)
    have hlast : counters[m]? = some 0 := hzero m (by omega)
    obtain ⟨hlt, hget⟩ := List.getElem?_eq_some_iff.mp hlast
    have hset : counters.set m 0 = counters := by
      conv_lhs => rw [← hget]
      exact List.set_getElem_self hlt
    -- The place `m` has made no swap yet, so all of its turns follow, from `0` on.
    rw [ih order counters hbefore, ordersAfter_turns ih (Nat.zero_add m) _ hlast hbefore, hset,
      swapsOf_succ_eq_turns, met_append, List.append_assoc]
    simp only [swappedAll, List.foldl_append]

/-- Counting leads from the ascending order through the listed arrangements. -/
theorem cons_ordersAfter_eq_arrangements (n : Nat) :
    inputNumbers n :: ordersAfter (inputNumbers n) (List.replicate n 0) 1 = arrangements n := by
  have hmet : inputNumbers n :: met (inputNumbers n) (swapsOf n) = arrangements n :=
    cons_met (inputNumbers n) (swapsOf n)
  rcases Nat.eq_zero_or_pos n with rfl | hpos
  · rw [ordersAfter_of_length_le (by simp)]
    rfl
  · have hzero : ∀ j < n, (List.replicate n 0)[j]? = some 0 := by
      intro j hj
      rw [List.getElem?_replicate, if_pos hj]
    rw [ordersAfter_one hpos _ _ hzero, ordersAfter_of_length_le (by simp), List.append_nil, hmet]

end Dichotomy
