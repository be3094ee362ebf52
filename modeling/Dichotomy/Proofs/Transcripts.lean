import Dichotomy.Transcript
import Mathlib.Data.List.Basic

/-!
# What a transcript says

A transcript only ever adds to what has been printed, so it is described by the text it adds and
by how it ends.  The description of a sequence is put together from those of its steps; behind a
fault nothing more is printed.

## Main statements

- `Transcript.Says`: a transcript adds a text and has an outcome.
- `Transcript.Says.bind`, `Transcript.Says.bind_error`: one step after the other.
- `Transcript.Says.mapM`, `Transcript.exists_says_mapM_error`: one step for each entry of a list.
- `Transcript.Gives`: how a transcript ends, whatever it says.
-/

namespace Dichotomy

namespace Transcript

variable {α β : Type}

/-- Whatever has been printed, the transcript adds a text to it and ends with an outcome. -/
def Says (t : Transcript α) (text : String) (result : Except Fault α) : Prop :=
  ∀ printed, t.run.run printed = (result, printed ++ text)

theorem says_pure (value : α) : Says (pure value) "" (.ok value) := by
  intro printed
  rw [String.append_empty]
  rfl

theorem says_say (line : String) : Says (say line) (line ++ "\n") (.ok ()) := by
  intro printed
  rw [← String.append_assoc]
  rfl

theorem says_outcome (result : Except Fault α) : Says (outcome result) "" result := by
  intro printed
  rw [String.append_empty]
  cases result <;> rfl

namespace Says

variable {t : Transcript α} {f : α → Transcript β} {text text' : String} {value : α}
  {result : Except Fault β} {fault : Fault}

theorem transcribe_eq {result : Except Fault α} (h : t.Says text result) :
    t.transcribe = (text, result) := by
  rw [transcribe, h "", String.empty_append]

theorem bind (h : t.Says text (.ok value)) (h' : (f value).Says text' result) :
    (t >>= f).Says (text ++ text') result := by
  intro printed
  have hrun : (t >>= f).run.run printed = (f value).run.run (printed ++ text) := by
    show ((t.run >>= fun r => ExceptT.bindCont f r) : StateM String _).run printed = _
    rw [StateT.run_bind]
    show (ExceptT.bindCont f (t.run.run printed).1 : StateM String _).run
      (t.run.run printed).2 = _
    rw [h printed]
    rfl
  rw [hrun, h', String.append_assoc]

/-- What is done with the value in the end prints nothing. -/
theorem bind_pure (h : t.Says text (.ok value)) (g : α → β) :
    (t >>= fun v => pure (g v)).Says text (.ok (g value)) := by
  have hall := h.bind (f := fun v => pure (g v)) (says_pure (g value))
  rwa [String.append_empty] at hall

/-- A step that prints nothing is known by its value. -/
theorem bind_outcome (h : (f value).Says text result) :
    (outcome (.ok value) >>= f).Says text result := by
  simpa using (says_outcome (.ok value)).bind h

/-- A fault ends the whole sequence. -/
theorem bind_error (h : t.Says text (.error fault)) (f : α → Transcript β) :
    (t >>= f).Says text (.error fault) := by
  intro printed
  show ((t.run >>= fun r => ExceptT.bindCont f r) : StateM String _).run printed = _
  rw [StateT.run_bind]
  show (ExceptT.bindCont f (t.run.run printed).1 : StateM String _).run (t.run.run printed).2 = _
  rw [h printed]
  rfl

end Says

/-! ## Steps for the entries of a list -/

variable {f : α → Transcript β} {text : α → String} {xs : List α}

/-- If every step has a value, the texts are joined and the values listed. -/
theorem Says.mapM {value : α → β} (h : ∀ x ∈ xs, (f x).Says (text x) (.ok (value x))) :
    (xs.mapM f).Says (String.join (xs.map text)) (.ok (xs.map value)) := by
  induction xs with
  | nil => exact says_pure []
  | cons x xs ih =>
    have hrest := ih fun y hy => h y (List.mem_cons_of_mem _ hy)
    rw [List.mapM_cons, List.map_cons, List.map_cons, String.join_cons]
    exact (h x List.mem_cons_self).bind (hrest.bind_pure (value x :: ·))

theorem Says.forM {f : α → Transcript Unit} (h : ∀ x ∈ xs, (f x).Says (text x) (.ok ())) :
    (xs.forM f).Says (String.join (xs.map text)) (.ok ()) := by
  induction xs with
  | nil => exact says_pure ()
  | cons x xs ih =>
    have hrest := ih fun y hy => h y (List.mem_cons_of_mem _ hy)
    rw [List.map_cons, String.join_cons]
    exact (h x List.mem_cons_self).bind hrest

/-- If some step has a fault, so has the whole sequence. -/
theorem exists_says_mapM_error {result : α → Except Fault β}
    (h : ∀ x ∈ xs, (f x).Says (text x) (result x))
    (hfault : ∃ x ∈ xs, ∃ fault, result x = .error fault) :
    ∃ printed fault, (xs.mapM f).Says printed (.error fault) := by
  induction xs with
  | nil =>
    obtain ⟨x, hx, -⟩ := hfault
    cases hx
  | cons first xs ih =>
    have hfirst := h first List.mem_cons_self
    rw [List.mapM_cons]
    cases hresult : result first with
    | error fault =>
      rw [hresult] at hfirst
      exact ⟨_, fault, hfirst.bind_error _⟩
    | ok value =>
      -- The first step has a value, so the fault comes behind it.
      rw [hresult] at hfirst
      obtain ⟨x, hx, fault, hfault⟩ := hfault
      have hmem : x ∈ xs := by
        rcases List.mem_cons.mp hx with rfl | hx
        · rw [hresult] at hfault
          cases hfault
        · exact hx
      obtain ⟨printed, fault, hrest⟩ :=
        ih (fun y hy => h y (List.mem_cons_of_mem _ hy)) ⟨x, hmem, fault, hfault⟩
      exact ⟨_, fault, hfirst.bind (hrest.bind_error _)⟩

/-! ## Results -/

/-- The transcript ends with a result, whatever it says. -/
def Gives (t : Transcript α) (result : Except Fault α) : Prop := ∃ text, t.Says text result

theorem gives_say (line : String) : Gives (say line) (.ok ()) := ⟨_, says_say line⟩

theorem gives_pure (value : α) : Gives (pure value) (.ok value) := ⟨_, says_pure value⟩

theorem gives_outcome (result : Except Fault α) : Gives (outcome result) result :=
  ⟨_, says_outcome result⟩

namespace Gives

theorem bind {t : Transcript α} {f : α → Transcript β} {value : α} {result : Except Fault β}
    (h : t.Gives (.ok value)) (h' : (f value).Gives result) : (t >>= f).Gives result := by
  obtain ⟨text, htext⟩ := h
  obtain ⟨text', htext'⟩ := h'
  exact ⟨text ++ text', htext.bind htext'⟩

theorem forM {f : α → Transcript Unit} {xs : List α} (h : ∀ x ∈ xs, (f x).Gives (.ok ())) :
    (xs.forM f).Gives (.ok ()) := by
  choose! text htext using h
  exact ⟨_, .forM htext⟩

end Gives

end Transcript

end Dichotomy
