import Mathlib.Tactic.Common

/-!
# Outcomes of computations

A computation that may fail succeeds exactly if its steps do, one after the other.
-/

namespace Dichotomy

variable {ε α β : Type}

/-- What a sequence of two steps gives comes from what the first one gives. -/
theorem exists_of_bind_eq_ok {x : Except ε α} {f : α → Except ε β} {b : β}
    (h : x >>= f = .ok b) : ∃ a, x = .ok a ∧ f a = .ok b := by
  cases x with
  | error fault => cases h
  | ok a => exact ⟨a, rfl, h⟩

/-- What comes out like a success is a success. -/
theorem eq_ok_of_toOption_eq {x y : Except ε α} {value : α} (h : y.toOption = x.toOption)
    (hx : x = .ok value) : y = .ok value := by
  rw [hx] at h
  cases y with
  | error => cases h
  | ok => exact congrArg _ (Option.some.inj h)

/-- A computation that succeeds for each entry of a list succeeds for all of them. -/
theorem mapM_eq_ok {f : α → Except ε β} {g : α → β} {xs : List α}
    (h : ∀ x ∈ xs, f x = .ok (g x)) : xs.mapM f = .ok (xs.map g) := by
  induction xs with
  | nil => rfl
  | cons x xs ih =>
    rw [List.mapM_cons, h x List.mem_cons_self, ih fun y hy => h y (List.mem_cons_of_mem _ hy)]
    rfl

/-- A computation that succeeds for all entries of a list succeeds for each of them, with a value
    that is among those of the list. -/
theorem exists_of_mapM_eq_ok {f : α → Except ε β} {xs : List α} {ys : List β}
    (h : xs.mapM f = .ok ys) : ∀ x ∈ xs, ∃ y ∈ ys, f x = .ok y := by
  induction xs generalizing ys with
  | nil => exact fun _ hx => absurd hx List.not_mem_nil
  | cons x xs ih =>
    rw [List.mapM_cons] at h
    obtain ⟨y, hy, h⟩ := exists_of_bind_eq_ok h
    obtain ⟨rest, hrest, h⟩ := exists_of_bind_eq_ok h
    obtain rfl : y :: rest = ys := Except.ok.inj h
    refine List.forall_mem_cons.mpr ⟨⟨y, List.mem_cons_self, hy⟩, fun x' hx' => ?_⟩
    obtain ⟨y', hy', hvalue⟩ := ih hrest x' hx'
    exact ⟨y', List.mem_cons_of_mem _ hy', hvalue⟩

/-- Each value of a computation for all entries of a list is the value of one of them. -/
theorem exists_mem_of_mapM_eq_ok {f : α → Except ε β} {xs : List α} {ys : List β}
    (h : xs.mapM f = .ok ys) : ∀ y ∈ ys, ∃ x ∈ xs, f x = .ok y := by
  induction xs generalizing ys with
  | nil =>
    obtain rfl : [] = ys := Except.ok.inj h
    exact fun _ hy => absurd hy List.not_mem_nil
  | cons x xs ih =>
    rw [List.mapM_cons] at h
    obtain ⟨y, hy, h⟩ := exists_of_bind_eq_ok h
    obtain ⟨rest, hrest, h⟩ := exists_of_bind_eq_ok h
    obtain rfl : y :: rest = ys := Except.ok.inj h
    refine List.forall_mem_cons.mpr ⟨⟨x, List.mem_cons_self, hy⟩, fun y' hy' => ?_⟩
    obtain ⟨x', hx', hvalue⟩ := ih hrest y' hy'
    exact ⟨x', List.mem_cons_of_mem _ hx', hvalue⟩

/-- A computation for all entries of a list succeeds, or it fails as it does for one of them. -/
theorem mapM_cases (f : α → Except ε β) (xs : List α) :
    (∃ ys, xs.mapM f = .ok ys) ∨
      ∃ x ∈ xs, ∃ fault, f x = .error fault ∧ xs.mapM f = .error fault := by
  induction xs with
  | nil => exact .inl ⟨[], rfl⟩
  | cons x xs ih =>
    rw [List.mapM_cons]
    cases hx : f x with
    | error fault => exact .inr ⟨x, List.mem_cons_self, fault, hx, rfl⟩
    | ok y =>
      rcases ih with ⟨ys, hys⟩ | ⟨x', hx', fault, hfault, hxs⟩
      · rw [hys]
        exact .inl ⟨y :: ys, rfl⟩
      · rw [hxs]
        exact .inr ⟨x', List.mem_cons_of_mem _ hx', fault, hfault, rfl⟩

end Dichotomy
