import CursorMachine.Proofs.Lowering.Simulation
import CursorMachine.Proofs.Lowering.Spelling

/-!
# Code with names for labels

Code that is read from its text has names for labels (`Line.named`). That changes nothing for an
execution, which finds a label by its text in any case: a step of the code with names is a step of
the code (`Image.step_named`), so runs carry over, and what stands in the one stands in the other.
-/

namespace CursorMachine.Arm

/-- The execution on code with names for labels. -/
def Execution.named (e : Execution) : Execution :=
  { e with ahead := e.ahead.map Line.named }

/-- The turn on code with names for labels. -/
def Turn.named : Turn → Turn
  | .on e => .on e.named
  | .back e => .back e.named
  | .left status output => .left status output
  | .stuck => .stuck

/-- A turn goes on with names for labels when it goes on. -/
theorem Turn.exists_of_named_eq_on {t : Turn} {e : Execution} (h : t.named = .on e) :
    ∃ e₀, t = .on e₀ ∧ e₀.named = e := by
  cases t <;> cases h
  exact ⟨_, rfl, rfl⟩

theorem seek_map_named (name : String) (lines : List Line) :
    seek name (lines.map Line.named) = (seek name lines).map (List.map Line.named) := by
  induction lines with
  | nil => rfl
  | cons line lines ih =>
    cases line with
    | label l =>
      have htext : l.named.text = l.text := rfl
      rw [List.map_cons, Line.named, seek, seek, htext]
      split
      · rfl
      · exact ih
    | directive d => cases d <;> exact ih
    | _ => exact ih

namespace Image

/-- The image with names for labels. -/
def named (i : Image) : Image :=
  { i with lines := i.lines.map Line.named }

variable {i : Image} {e e' : Execution}

theorem jump_named (target : Label) :
    i.named.jump e.named target.named = (i.jump e target).named := by
  have htext : target.named.text = target.text := rfl
  rw [jump, jump, htext, named, seek_map_named]
  cases seek target.text i.lines <;> rfl

theorem perform_named (o : Operation) :
    i.named.perform e.named o.named = (i.perform e o).named := by
  cases o with
  | branch c target =>
    show (if c.holds e.processor.flags then i.named.jump e.named target.named else .on e.named) =
      (if c.holds e.processor.flags then i.jump e target else .on e).named
    split
    · exact jump_named target
    · rfl
  | call target =>
    have htext : target.named.text = target.text := rfl
    rw [Operation.named, perform, perform, htext]
    split <;> rfl
  | service =>
    show e.named.serve = e.serve.named
    unfold Execution.serve
    dsimp only [Execution.named]
    split
    · rfl
    · split <;> rfl
  | pop first last more => cases more <;> rfl
  | _ => rfl

/-- **A step of the code with names is a step of the code.** -/
theorem step_named : i.named.step e.named = (i.step e).named := by
  obtain ⟨- | ⟨line, ahead⟩, q, output⟩ := e
  · rfl
  · cases line with
    | operation o => exact perform_named (e := ⟨ahead, q, output⟩) o
    | directive d => cases d <;> rfl
    | _ => rfl

theorem run_named (n : Nat) : i.named.run n e.named = (i.run n e).named := by
  induction n generalizing e with
  | zero => rfl
  | succ n ih =>
    rw [run, run, step_named]
    cases i.step e with
    | on e' => exact ih
    | _ => rfl

theorem Reaches.named (h : i.Reaches e e') : i.named.Reaches e.named e'.named := by
  obtain ⟨n, hn⟩ := h
  exact ⟨n, by rw [run_named, hn]; rfl⟩

theorem Advances.named (h : i.Advances e e') : i.named.Advances e.named e'.named := by
  obtain ⟨n, hn⟩ := h
  exact ⟨n, by rw [run_named, hn]; rfl⟩

theorem Leaves.named {status : UInt32} {output : List Event} (h : i.Leaves e status output) :
    i.named.Leaves e.named status output := by
  obtain ⟨n, hn⟩ := h
  exact ⟨n, by rw [run_named, hn]; rfl⟩

end Image

section Stands

variable {size : Nat} {i : Image} {base : UInt32} {m : Machine size} {e : Execution}

theorem Execution.StandsAt.named (h : e.StandsAt i base m) : e.named.StandsAt i.named base m where
  ahead_eq := by
    rw [Image.named, seek_map_named, h.ahead_eq]
    rfl
  mirrors := h.mirrors
  output_eq := h.output_eq

/-- What stands in the code with names is an execution of the code. -/
theorem Execution.StandsAt.exists_of_named (h : e.StandsAt i.named base m) :
    ∃ e₀ : Execution, e₀.StandsAt i base m ∧ e₀.named = e := by
  obtain ⟨ahead, q, output⟩ := e
  have hseek := h.ahead_eq
  rw [Image.named, seek_map_named] at hseek
  obtain ⟨ahead₀, hahead, rfl⟩ := Option.map_eq_some_iff.1 hseek
  exact ⟨⟨ahead₀, q, output⟩, ⟨hahead, ⟨h.mirrors.toFrame, h.mirrors.cursor_eq⟩, h.output_eq⟩, rfl⟩

end Stands

end CursorMachine.Arm
