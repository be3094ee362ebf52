import Dichotomy.CommandLine.Run
import Dichotomy.Proofs.Transcripts

/-!
# What a session prints

A session only ever adds to both outputs, so it is described by the text it adds to each of them and
by how it ends, from which its exit code is read off.

## Main statements

- `Session.Prints`: a session adds a text to each output and has a result.
- `Session.Prints.bind`, `Session.Prints.bind_error`: one step after the other.
- `Ending.ofSession_ok`, `Ending.ofSession_error`: the ending of a session.
-/

namespace Dichotomy

namespace Session

variable {α β : Type}

/-- Whatever stands on the console, the session adds a text to each output and ends with a
    result. -/
def Prints (session : Session α) (output errors : String) (result : Except Fault α) : Prop :=
  ∀ console : Console, session.run.run console =
    (result, ⟨console.output ++ output, console.errors ++ errors⟩)

theorem prints_outcome (result : Except Fault α) : (outcome result).Prints "" "" result := by
  intro console
  rw [String.append_empty, String.append_empty]
  cases result <;> rfl

theorem prints_pure (value : α) : (pure value : Session α).Prints "" "" (.ok value) :=
  prints_outcome (.ok value)

theorem prints_throw (fault : Fault) : (throw fault : Session α).Prints "" "" (.error fault) :=
  prints_outcome (.error fault)

theorem prints_write (text : String) : (write text).Prints text "" (.ok ()) := by
  intro console
  rw [String.append_empty]
  rfl

theorem prints_writeError (text : String) : (writeError text).Prints "" text (.ok ()) := by
  intro console
  rw [String.append_empty]
  rfl

namespace Prints

variable {session : Session α} {f : α → Session β} {output output' errors errors' : String}
  {value : α} {result : Except Fault β} {fault : Fault}

theorem bind (h : session.Prints output errors (.ok value))
    (h' : (f value).Prints output' errors' result) :
    (session >>= f).Prints (output ++ output') (errors ++ errors') result := by
  intro console
  rw [ExceptT.run_bind, StateT.run_bind, h console, ← String.append_assoc, ← String.append_assoc]
  exact h' ⟨console.output ++ output, console.errors ++ errors⟩

/-- Steps that leave the error output alone. -/
theorem bind_output (h : session.Prints output "" (.ok value))
    (h' : (f value).Prints output' "" result) :
    (session >>= f).Prints (output ++ output') "" result := by
  simpa only [String.append_empty] using h.bind h'

/-- A fault ends the session. -/
theorem bind_error (h : session.Prints output errors (.error fault)) (f : α → Session β) :
    (session >>= f).Prints output errors (.error fault) := by
  intro console
  rw [ExceptT.run_bind, StateT.run_bind, h console]
  rfl

/-- A step that prints nothing is known by its value. -/
theorem bind_outcome (h : (f value).Prints output errors result) :
    (outcome (.ok value) >>= f).Prints output errors result := by
  simpa only [String.empty_append] using (prints_outcome (.ok value)).bind h

/-- What is done with the value in the end prints nothing. -/
theorem bind_pure (h : session.Prints output errors (.ok value)) (g : α → β) :
    (session >>= fun v => pure (g v)).Prints output errors (.ok (g value)) := by
  simpa only [String.append_empty] using
    h.bind (f := fun v => pure (g v)) (prints_pure (g value))

end Prints

/-! ## Transcripts within a session -/

variable {t : Transcript α} {text : String} {result : Except Fault α}

theorem prints_relay {print : String → Session Unit} {output errors : String}
    (hprint : (print text).Prints output errors (.ok ())) (h : t.Says text result) :
    (relay print t).Prints output errors result := by
  rw [relay, h.transcribe_eq]
  simpa only [String.append_empty] using
    hprint.bind (f := fun _ => outcome result) (prints_outcome result)

end Session

/-! ## Endings -/

namespace Ending

open Session

variable {session : Session Bool} {output errors : String}

theorem ofSession_ok {correct : Bool} (h : session.Prints output errors (.ok correct))
    (verbose : Bool) :
    ofSession verbose session = ⟨if correct then 0 else 1, ⟨output, errors⟩⟩ := by
  rw [ofSession, h ⟨"", ""⟩, String.empty_append, String.empty_append]

/-- A fault adds its message to the error output only. -/
theorem ofSession_error {fault : Fault} (h : session.Prints output errors (.error fault))
    (verbose : Bool) :
    ∃ report, ofSession verbose session = ⟨1, ⟨output, errors ++ report⟩⟩ := by
  rw [ofSession, h ⟨"", ""⟩, String.empty_append, String.empty_append]
  exact ⟨_, rfl⟩

end Ending

end Dichotomy
