import Dichotomy.Diagram.Basic

/-!
# Comparing shapes

A diagram whose parts are shared can be small in memory and have an enormous shape.  Two diagrams
are therefore compared side by side, without writing their shapes down, and a part that is one
and the same object on both sides is passed over.  `withPtrEq` only saves work: by definition it
is the comparison that it may skip.
-/

namespace Dichotomy

namespace Diagram

variable {ι : Type}

/-- A comparison that need not be carried out when both diagrams are one and the same. -/
@[inline] def unlessSame (x y : Diagram ι) (comparison : Unit → Decidable (x.shape = y.shape)) :
    Decidable (x.shape = y.shape) :=
  if h : withPtrEq x y (fun _ => @decide _ (comparison ()))
      (fun h => @decide_eq_true _ (comparison ()) (congrArg shape h)) = true then
    isTrue (@of_decide_eq_true _ (comparison ()) h)
  else isFalse fun same => h (@decide_eq_true _ (comparison ()) same)

/-- Compares two shapes from the root, high sides before low ones. -/
def compareShapes : (x y : Diagram ι) → Decidable (x.shape = y.shape)
  | leaf _ cell, leaf _ cell' =>
    if h : cell = cell' then isTrue (by simp [h]) else isFalse (by simp [h])
  | leaf _ _, branch _ _ _ _ => isFalse (by simp)
  | branch _ _ _ _, leaf _ _ => isFalse (by simp)
  | branch _ var high low, branch _ var' high' low' =>
    if hVar : var = var' then
      match unlessSame high high' fun _ => compareShapes high high' with
      | isFalse hHigh => isFalse (by simp [hHigh])
      | isTrue hHigh =>
        match unlessSame low low' fun _ => compareShapes low low' with
        | isFalse hLow => isFalse (by simp [hLow])
        | isTrue hLow => isTrue (by simp [hVar, hHigh, hLow])
    else isFalse (by simp [hVar])

/-- Whether two diagrams have one shape. -/
def sameShape (x y : Diagram ι) : Bool :=
  @decide _ (unlessSame x y fun _ => compareShapes x y)

@[simp] theorem sameShape_iff {x y : Diagram ι} : x.sameShape y = true ↔ x.shape = y.shape :=
  @decide_eq_true_iff _ (unlessSame x y fun _ => compareShapes x y)

end Diagram

end Dichotomy
