import Mathlib.GroupTheory.Perm.Cycle.Basic

/-!
# Cycles made of swaps

Going through all arrangements of some places by swaps leaves the places permuted: either the
first place and the last one are exchanged, or all places move on along one cycle.  Both follow
from what one more swap does, which makes a cycle longer by one place.

## Main statements

- `isCycleOn_mul_swap`: a swap with a place outside a cycle adds the place to the cycle.
- `exists_turn_pow_eq`, `turn_pow_mul`: always swapping the first place with a new one.
- `wheel_succ_apply`, `isCycleOn_wheel`: swapping one place after the other with a new one.
-/

namespace Dichotomy

open Equiv

/-- A swap with a place outside a cycle adds the place to the cycle. -/
theorem isCycleOn_mul_swap {f : Perm ℕ} {s : Finset ℕ} {x y : ℕ} (hf : f.IsCycleOn s)
    (hx : x ∈ s) (hy : y ∉ s) (hfy : f y = y) :
    (f * swap x y).IsCycleOn (insert y s : Finset ℕ) := by
  have hgx : (f * swap x y) x = y := by rw [Perm.mul_apply, swap_apply_left, hfy]
  have hgy : (f * swap x y) y = f x := by rw [Perm.mul_apply, swap_apply_right]
  have hg {z : ℕ} (hz : z ∈ s) (hzx : z ≠ x) : (f * swap x y) z = f z := by
    have hzy : z ≠ y := fun h => hy (h ▸ hz)
    rw [Perm.mul_apply, swap_apply_of_ne_of_ne hzx hzy]
  have hsame (z : ℕ) : (f * swap x y).SameCycle z ((f * swap x y) z) :=
    Perm.sameCycle_apply_right.mpr (Perm.SameCycle.refl _ _)
  have hxy : (f * swap x y).SameCycle x y := by
    have h := hsame x
    rwa [hgx] at h
  have hclosed {z : ℕ} (hz : z ∈ s) : f z ∈ s := hf.1.mapsTo hz
  -- The longer cycle reaches from `x` all that the shorter one reaches, and `y`.
  have hreach : ∀ n : ℕ, (f ^ n) x ∈ s ∧ (f * swap x y).SameCycle x ((f ^ n) x) := by
    intro n
    induction n with
    | zero => exact ⟨hx, Perm.SameCycle.refl _ _⟩
    | succ n ih =>
      rw [pow_succ', Perm.mul_apply]
      refine ⟨hclosed ih.1, ?_⟩
      by_cases hzx : (f ^ n) x = x
      · have h := hsame y
        rw [hgy] at h
        rw [hzx]
        exact hxy.trans h
      · have h := hsame ((f ^ n) x)
        rw [hg ih.1 hzx] at h
        exact ih.2.trans h
  have hfrom : ∀ z ∈ insert y s, (f * swap x y).SameCycle x z := by
    intro z hz
    rcases Finset.mem_insert.mp hz with rfl | hz
    · exact hxy
    · obtain ⟨n, -, rfl⟩ := hf.exists_pow_eq hx hz
      exact (hreach n).2
  -- On a finite set it is enough that the places stay inside.
  have hmaps : Set.MapsTo (f * swap x y) (insert y s : Finset ℕ) (insert y s : Finset ℕ) := by
    intro z hz
    rcases Finset.mem_insert.mp hz with rfl | hz
    · rw [hgy]
      exact Finset.mem_insert_of_mem (hclosed hx)
    · by_cases hzx : z = x
      · rw [hzx, hgx]
        exact Finset.mem_insert_self _ _
      · rw [hg hz hzx]
        exact Finset.mem_insert_of_mem (hclosed hz)
  have hinj : Set.InjOn (f * swap x y) (insert y s : Finset ℕ) := (Equiv.injective _).injOn
  refine ⟨⟨hmaps, hinj, ?_⟩, fun z hz w hw => (hfrom z hz).symm.trans (hfrom w hw)⟩
  exact Finset.surjOn_of_injOn_of_card_le _ hmaps hinj (Nat.le_refl _)

/-! ## Always the first place -/

section Turn

variable {f : Perm ℕ} {m : ℕ}

theorem isCycleOn_turn (hf : f.IsCycleOn (Finset.range m)) (hm : 0 < m) (hfm : f m = m) :
    (f * swap m 0).IsCycleOn (Finset.range (m + 1)) := by
  rw [swap_comm, Finset.range_add_one]
  exact isCycleOn_mul_swap hf (Finset.mem_range.mpr hm) Finset.notMem_range_self hfm

/-- The place `m` gets everywhere. -/
theorem exists_turn_pow_eq (hf : f.IsCycleOn (Finset.range m)) (hm : 0 < m) (hfm : f m = m)
    {p : ℕ} (hp : p ≤ m) : ∃ j ≤ m, ((f * swap m 0) ^ j) m = p := by
  obtain ⟨j, hj, hjp⟩ := (isCycleOn_turn hf hm hfm).exists_pow_eq
    (Finset.self_mem_range_succ m) (Finset.mem_range.mpr (Nat.lt_succ_of_le hp))
  rw [Finset.card_range] at hj
  exact ⟨j, Nat.le_of_lt_succ hj, hjp⟩

/-- After one turn less than a whole cycle, only the first place and the new one have changed. -/
theorem turn_pow_mul (hf : f.IsCycleOn (Finset.range m)) (hm : 0 < m)
    (hfix : ∀ p, m ≤ p → f p = p) : (f * swap m 0) ^ m * f = swap 0 m := by
  have hcycle := isCycleOn_turn hf hm (hfix m (Nat.le_refl m))
  -- A whole turn of the longer cycle brings every place back.
  have hwhole : (f * swap m 0) ^ (m + 1) = 1 := by
    ext p
    by_cases hp : p < m + 1
    · have hpow := hcycle.pow_card_apply (Finset.mem_range.mpr hp)
      rw [Finset.card_range] at hpow
      rw [hpow, Perm.one_apply]
    · refine Perm.pow_apply_eq_self_of_apply_eq_self ?_ _
      rw [Perm.mul_apply, swap_apply_of_ne_of_ne (by omega) (by omega), hfix p (by omega)]
  calc (f * swap m 0) ^ m * f
      = (f * swap m 0) ^ m * (f * swap m 0 * swap m 0) := by
        rw [mul_assoc f, swap_mul_self, mul_one]
    _ = (f * swap m 0) ^ (m + 1) * swap m 0 := by rw [← mul_assoc, ← pow_succ]
    _ = swap 0 m := by rw [hwhole, one_mul, swap_comm]

end Turn

/-! ## One place after the other -/

/-- The swaps of the places `e 0`, `e 1`, … with `m`. -/
def wheel (e : Perm ℕ) (m : ℕ) : ℕ → Perm ℕ
  | 0 => 1
  | j + 1 => wheel e m j * swap m (e j)

section Wheel

variable {e : Perm ℕ} {m : ℕ}

theorem wheel_apply_of_ne {p : ℕ} (hp : p ≠ m) {j : ℕ} (hj : ∀ i < j, e i ≠ p) :
    wheel e m j p = p := by
  induction j with
  | zero => rfl
  | succ j ih =>
    rw [wheel, Perm.mul_apply, swap_apply_of_ne_of_ne hp (hj j (Nat.lt_succ_self j)).symm]
    exact ih fun i hi => hj i (Nat.lt_succ_of_lt hi)

/-- The last swap decides where the new place gets. -/
theorem wheel_succ_apply (hm : e m = m) {j : ℕ} (hj : j < m) :
    wheel e m (j + 1) m = e j := by
  have hne : e j ≠ m := fun h => Nat.ne_of_lt hj (e.injective (h.trans hm.symm))
  rw [wheel, Perm.mul_apply, swap_apply_left]
  exact wheel_apply_of_ne hne fun i hi h => Nat.ne_of_lt hi (e.injective h)

/-- Each swap adds its place to the cycle. -/
theorem isCycleOn_wheel (hm : e m = m) {j : ℕ} (hj : j ≤ m) :
    (wheel e m j).IsCycleOn (insert m ((Finset.range j).image e) : Finset ℕ) := by
  induction j with
  | zero =>
    rw [Finset.range_zero, Finset.image_empty, insert_empty_eq, Finset.coe_singleton,
      Perm.isCycleOn_singleton]
    rfl
  | succ j ih =>
    have hne : e j ≠ m := fun h => absurd (e.injective (h.trans hm.symm)) (by omega)
    have hbefore : ∀ i < j, e i ≠ e j := fun i hi h => Nat.ne_of_lt hi (e.injective h)
    -- The place of the next swap has not been moved so far.
    have hnew : e j ∉ insert m ((Finset.range j).image e) := by
      intro hmem
      rcases Finset.mem_insert.mp hmem with h | h
      · exact hne h
      · obtain ⟨i, hi, hij⟩ := Finset.mem_image.mp h
        exact hbefore i (Finset.mem_range.mp hi) hij
    have hcycle := isCycleOn_mul_swap (ih (by omega)) (Finset.mem_insert_self _ _) hnew
      (wheel_apply_of_ne hne hbefore)
    rw [Finset.insert_comm, ← Finset.image_insert, ← Finset.range_add_one] at hcycle
    exact hcycle

end Wheel

end Dichotomy
