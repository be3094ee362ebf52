/-!
# Ascending lists

Input numbers put into ascending order one by one, repetitions kept.
-/

namespace Dichotomy

/-- Puts a number into an ascending list, before the first one that is not smaller. -/
def insertAscending (x : Int) : List Int → List Int
  | [] => [x]
  | y :: ys => if x ≤ y then x :: y :: ys else y :: insertAscending x ys

/-- The numbers of a list in ascending order. -/
def ascending (xs : List Int) : List Int := xs.foldr insertAscending []

theorem perm_insertAscending (x : Int) (xs : List Int) :
    (insertAscending x xs).Perm (x :: xs) := by
  induction xs with
  | nil => exact .refl _
  | cons y ys ih =>
    rw [insertAscending]
    split
    · exact .refl _
    · exact (ih.cons y).trans (.swap x y ys)

theorem pairwise_insertAscending (x : Int) {xs : List Int} (h : xs.Pairwise (· ≤ ·)) :
    (insertAscending x xs).Pairwise (· ≤ ·) := by
  induction xs with
  | nil => exact List.pairwise_singleton _ _
  | cons y ys ih =>
    obtain ⟨hy, hys⟩ := List.pairwise_cons.1 h
    rw [insertAscending]
    split
    next hxy =>
      refine List.pairwise_cons.2 ⟨fun z hz => ?_, h⟩
      rcases List.mem_cons.1 hz with rfl | hz
      · exact hxy
      · exact Int.le_trans hxy (hy z hz)
    next hxy =>
      refine List.pairwise_cons.2 ⟨fun z hz => ?_, ih hys⟩
      rcases List.mem_cons.1 ((perm_insertAscending x ys).mem_iff.1 hz) with rfl | hz
      · omega
      · exact hy z hz

theorem perm_ascending (xs : List Int) : (ascending xs).Perm xs := by
  induction xs with
  | nil => exact .refl _
  | cons x xs ih => exact (perm_insertAscending x _).trans (ih.cons x)

theorem pairwise_ascending (xs : List Int) : (ascending xs).Pairwise (· ≤ ·) := by
  induction xs with
  | nil => exact .nil
  | cons x xs ih => exact pairwise_insertAscending x ih

end Dichotomy
