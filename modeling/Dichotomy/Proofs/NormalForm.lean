import Dichotomy.Proofs.CanonicalForm
import Dichotomy.Proofs.OneSided

/-!
# Normal forms

Any diagram, whatever it tests and in whatever sequence, is put into normal form by reducing its
decisions from the leaves up.  What a decision becomes depends on what its sides have become, so
one side that gives way may make another decision needless, up to the root.

Where the diagram demands something, its normal form answers alike, and it is never larger.  The
score is compared together with the scores below all decisions (`AtMost`), since a side that gives
way may tear a merge chain.

## Main statements

- `Diagram.isNormal_normal`, `Diagram.sameShape_normal_iff`: normal forms, and what is one already.
- `Diagram.eval_normal`, `Diagram.normal_atMost`: their answers and their size.
- `Diagram.normal_form`: all of this together, with a store or without one.
-/

namespace Dichotomy

namespace Diagram

variable {ι : Type}

/-- The diagram made again from its leaves, with every decision reduced. -/
def normal : Diagram ι → Diagram ι
  | leaf mark cell => leaf mark cell
  | branch mark var high low => reducedBranch mark var high.normal low.normal

/-- No test has a side that demands nothing, or two sides of one shape. -/
def IsNormal : Diagram ι → Prop
  | leaf _ _ => True
  | branch _ _ high low =>
    (¬ high.isFree = true ∧ ¬ low.isFree = true ∧ high.shape ≠ low.shape) ∧
      high.IsNormal ∧ low.IsNormal

/-! ## Normal forms are normal -/

theorem isNormal_shape (d : Diagram ι) : d.shape.IsNormal ↔ d.IsNormal := by
  induction d with
  | leaf mark cell => exact Iff.rfl
  | branch mark var high low ihHigh ihLow =>
    rw [shape_branch, IsNormal, IsNormal, Reduction.isFree_shape, Reduction.isFree_shape,
      shape_shape, shape_shape, ihHigh, ihLow]

theorem normal_shape (d : Diagram ι) : d.shape.normal = d.normal.shape := by
  induction d with
  | leaf mark cell => rfl
  | branch mark var high low ihHigh ihLow =>
    rw [shape_branch, normal, normal, ihHigh, ihLow, reducedBranch, reducedBranch,
      Reduction.of_shape]
    cases Reduction.of high.normal low.normal <;> rfl

theorem isNormal_reducedBranch {mark : ι} {var : Int} {high low : Diagram ι}
    (hhigh : high.IsNormal) (hlow : low.IsNormal) : (reducedBranch mark var high low).IsNormal := by
  rcases reducedBranch_cases mark var high low with
    ⟨-, heq⟩ | ⟨-, heq⟩ | ⟨-, heq⟩ | ⟨hhighFree, hlowFree, hne, heq⟩
  · rwa [heq]
  · rwa [heq]
  · rwa [heq]
  · rw [heq]
    exact ⟨⟨hhighFree, hlowFree, hne⟩, hhigh, hlow⟩

/-- A normal form is normal. -/
theorem isNormal_normal (d : Diagram ι) : d.normal.IsNormal := by
  induction d with
  | leaf mark cell => exact trivial
  | branch mark var high low ihHigh ihLow => exact isNormal_reducedBranch ihHigh ihLow

/-- What is normal is left as it is. -/
theorem IsNormal.normal_eq {d : Diagram ι} (h : d.IsNormal) : d.normal = d := by
  induction d with
  | leaf mark cell => rfl
  | branch mark var high low ihHigh ihLow =>
    obtain ⟨⟨hhighFree, hlowFree, hne⟩, hhigh, hlow⟩ := h
    rw [normal, ihHigh hhigh, ihLow hlow]
    rcases reducedBranch_cases mark var high low with
      ⟨hfree, -⟩ | ⟨hfree, -⟩ | ⟨hshape, -⟩ | ⟨-, -, -, heq⟩
    · exact absurd hfree hhighFree
    · exact absurd hfree hlowFree
    · exact absurd hshape hne
    · exact heq

theorem normal_normal (d : Diagram ι) : d.normal.normal = d.normal := d.isNormal_normal.normal_eq

/-- A diagram has the shape of its normal form only if it is normal already. -/
theorem sameShape_normal_iff {d : Diagram ι} : d.normal.sameShape d = true ↔ d.IsNormal := by
  rw [sameShape_iff]
  constructor
  · intro hshape
    rw [← isNormal_shape, ← hshape, isNormal_shape]
    exact d.isNormal_normal
  · intro h
    rw [h.normal_eq]

/-! ## Answers of normal forms -/

/-- A reduced decision gives the literal of the side that its input chooses. -/
theorem eval_reducedBranch_of_literal {mark : ι} {var : Int} {high low : Diagram ι}
    {a : Assignment} {value : Bool} {text : String} (hvar : atPosition a var = .ok value)
    (h : (cond value high low).eval a = .ok (.literal text)) :
    (reducedBranch mark var high low).eval a = .ok (.literal text) := by
  have hfree : (cond value high low).isFree = false := by
    rw [Bool.eq_false_iff]
    intro hfree
    rw [eval_of_isFree hfree] at h
    cases h
  rw [eval_reducedBranch hvar, hfree]
  exact h

/-- What is demanded is demanded of the normal form as well. -/
theorem eval_normal {d : Diagram ι} {a : Assignment} {text : String}
    (h : d.eval a = .ok (.literal text)) : d.normal.eval a = .ok (.literal text) := by
  induction d with
  | leaf mark cell => exact h
  | branch mark var high low ihHigh ihLow =>
    rw [eval] at h
    -- The side that the input chooses demands the literal, so it is not the one that gives way.
    split at h
    next hvar => exact eval_reducedBranch_of_literal hvar (ihHigh h)
    next hvar => exact eval_reducedBranch_of_literal hvar (ihLow h)
    next => cases h

/-! ## Size of normal forms -/

/-- A normal form is no larger than the diagram, alone and below any decision. -/
theorem normal_atMost (d : Diagram ι) : AtMost d.normal d := by
  induction d with
  | leaf mark cell => exact .leaf mark mark cell
  | branch mark var high low ihHigh ihLow =>
    rw [normal]
    -- A side that is kept alone is compared with the whole decision.
    rcases reducedBranch_cases mark var high.normal low.normal with
      ⟨-, heq⟩ | ⟨-, heq⟩ | ⟨-, heq⟩ | ⟨-, -, -, heq⟩
    · rw [heq]
      exact ihLow.of_low mark var high
    · rw [heq]
      exact ihHigh.of_high mark var low
    · rw [heq]
      exact ihHigh.of_high mark var low
    · rw [heq]
      refine ihHigh.branch ihLow ?_ mark mark var var
      -- A leaf is its own normal form, so a fallback stays one.
      rintro lowMark cell rfl
      exact ⟨lowMark, rfl⟩

end Diagram

/-! ## Normal forms in a store -/

namespace Store

variable {ι : Type}

/-- Makes the nodes of a diagram from the leaves up, with every decision reduced: the high side
    first, then the low side, then the root. -/
def addNormal (s : Store) : Diagram ι → Node × Store
  | .leaf _ cell => s.addLeaf cell
  | .branch _ var high low =>
    let (high, s) := s.addNormal high
    let (low, s) := s.addNormal low
    s.addReduced var high low

/-- What the store holds already does not matter for the normal form. -/
theorem shape_addNormal (s : Store) (d : Diagram ι) :
    (s.addNormal d).1.shape = d.normal.shape := by
  rw [← Diagram.normal_shape]
  induction d generalizing s with
  | leaf mark cell => rfl
  | branch mark var high low ihHigh ihLow =>
    rw [Diagram.shape_branch, Diagram.normal, ← ihHigh s, ← ihLow (s.addNormal high).2]
    exact shape_addReduced _ _ _ _

end Store

namespace Diagram

variable {ι : Type}

/-- **Normalising**: the normal form of a diagram is normal, is its own normal form and has the
    shape of the diagram only if that is normal; it gives every literal that the diagram gives, and
    has neither a larger score nor more decisions.  Made in a store, it has the same shape. -/
theorem normal_form (d : Diagram ι) :
    d.normal.IsNormal ∧ d.normal.normal.sameShape d.normal = true ∧
      (d.normal.sameShape d = true ↔ d.IsNormal) ∧
      (∀ (a : Assignment) (text : String), d.eval a = .ok (.literal text) →
        d.normal.eval a = .ok (.literal text)) ∧
      d.normal.score ≤ d.score ∧ d.normal.decisions ≤ d.decisions ∧
      ∀ s : Store, (s.addNormal d).1.shape = d.normal.shape := by
  refine ⟨d.isNormal_normal, ?_, sameShape_normal_iff, fun a text h => eval_normal h,
    d.normal_atMost.score, d.normal_atMost.decisions, fun s => s.shape_addNormal d⟩
  rw [normal_normal, sameShape_iff]

/-- A side that demands nothing gives way, which makes the test above needless: of three tests one
    is left. -/
theorem normal_form_cascade :
    let d : Tree := .branch () 0
      (.branch () 1 (.leaf () (.literal "A")) (.branch () 0 (.leaf () .dontCare)
        (.leaf () (.literal "A"))))
      (.leaf () (.literal "B"))
    d.eval [true, true] = .ok (.literal "A") ∧
      d.normal = .branch () 0 (.leaf () (.literal "A")) (.leaf () (.literal "B")) ∧
      d.normal.eval [true, true] = .ok (.literal "A") ∧ d.normal.score ≤ d.score := by
  intro d
  have heval : d.eval [true, true] = .ok (.literal "A") := rfl
  obtain ⟨-, -, -, hanswers, hscore, -⟩ := normal_form d
  exact ⟨heval, rfl, hanswers _ _ heval, hscore⟩

end Diagram

end Dichotomy
