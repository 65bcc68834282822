import CursorMachine.Instruction
import CursorMachine.Proofs.Lowering.Processor

/-!
# Executions

An execution runs the lines of an `Image` one after the other. It holds the lines that are *ahead*,
so that code is run from where it stands; a branch finds its label, by the text of the label, from
the top of the image. Labels, directives and remarks do nothing when they are reached.

The print routine is taken as a whole: calling it puts the number in the first register out, and its
effect on the processor is a parameter of the image. The lines of the routine can be run as well;
they end in `Turn.back`, since the callers of an image are not part of it.

`Image.run` takes a number of steps. The relations over it forget the number: `Reaches`, `Advances`
(at least one step) and `Leaves` (to the end of the program).
-/

namespace CursorMachine.Arm

/-- What a program puts out. -/
inductive Event where
  /-- A number, by the print routine. -/
  | number (v : Cell)
  /-- Bytes, by the system. -/
  | bytes (bs : List UInt8)
  deriving DecidableEq, Repr

/-- The operation goes on with the next line, whatever it does. -/
def Operation.isPlain : Operation → Bool
  | .branch .. | .call _ | .service => false
  | .pop _ _ more => more != .pc
  | _ => true

/-- Where an execution stands. -/
structure Execution where
  /-- The lines to run next. -/
  ahead : List Line
  processor : Processor
  /-- What was put out, oldest first. -/
  output : List Event

/-- What a step leads to. -/
inductive Turn where
  | on (e : Execution)
  /-- The routine that is being run returns. -/
  | back (e : Execution)
  /-- The program ends with an exit status. -/
  | left (status : UInt32) (output : List Event)
  | stuck

/-- The lines from a label on. -/
def seek (name : String) : List Line → Option (List Line)
  | [] => none
  | .label l :: rest => if l.text = name then some (.label l :: rest) else seek name rest
  | _ :: rest => seek name rest

/-- Lines that are loaded, and what calling their print routine does to a processor. -/
structure Image where
  lines : List Line
  print : Processor → Processor

namespace Execution

/-- The system call that ends the program. -/
def exitService : UInt32 := 1

/-- The system call that puts bytes out. -/
def writeService : UInt32 := 4

/-- What the system does for an execution. -/
def serve (e : Execution) : Turn :=
  let q := e.processor
  if q.register .r7 = exitService then .left (q.register .r0) e.output
  else if q.register .r7 = writeService then
    let count := q.register .r2
    let bytes := (List.range count.toNat).map fun i ↦ q.byte (q.register .r1 + .ofNat i)
    .on { e with processor := q.set .r0 count, output := e.output ++ [.bytes bytes] }
  else .stuck

end Execution

namespace Image

variable (i : Image)

/-- Continues at a label. -/
def jump (e : Execution) (target : Label) : Turn :=
  match seek target.text i.lines with
  | some ahead => .on { e with ahead }
  | none => .stuck

/-- Runs an operation, for an execution that has the lines after it ahead. -/
def perform (e : Execution) : Operation → Turn
  | .branch c target => if c.holds e.processor.flags then i.jump e target else .on e
  | .call target =>
    if target.text = Routine.print.text then
      .on { e with
        processor := i.print e.processor
        output := e.output ++ [.number (e.processor.register .r0).toInt32] }
    else .stuck
  | .service => e.serve
  | .pop first last .pc =>
    .back { e with processor := (Operation.pop first last .pc).apply e.processor }
  | o => .on { e with processor := o.apply e.processor }

/-- Runs one line. -/
def step (e : Execution) : Turn :=
  match e.ahead with
  | [] => .stuck
  | .operation o :: ahead => i.perform { e with ahead } o
  | _ :: ahead => .on { e with ahead }

/-- Runs a number of lines, fewer only when the execution does not go on. -/
def run : Nat → Execution → Turn
  | 0, e => .on e
  | n + 1, e =>
    match i.step e with
    | .on e => run n e
    | t => t

/-- An execution goes on to another one, or is there already. -/
def Reaches (e e' : Execution) : Prop :=
  ∃ n, i.run n e = .on e'

/-- An execution goes on to another one, by at least one line. -/
def Advances (e e' : Execution) : Prop :=
  ∃ n, i.run (n + 1) e = .on e'

/-- An execution goes on to the end of the program. -/
def Leaves (e : Execution) (status : UInt32) (output : List Event) : Prop :=
  ∃ n, i.run n e = .left status output

variable {i} {e e' e'' : Execution}

/-! ### Sequences of steps -/

theorem run_add {m : Nat} (h : i.run m e = .on e') (n : Nat) : i.run (m + n) e = i.run n e' := by
  induction m generalizing e with
  | zero =>
    cases h
    rw [Nat.zero_add]
  | succ m ih =>
    rw [run] at h
    rw [Nat.succ_add, run]
    split at h
    · exact ih h
    · next hstep =>
      exact absurd h (hstep e')

theorem Reaches.refl : i.Reaches e e :=
  ⟨0, rfl⟩

theorem Reaches.trans (h : i.Reaches e e') (h' : i.Reaches e' e'') : i.Reaches e e'' := by
  obtain ⟨m, hm⟩ := h
  obtain ⟨n, hn⟩ := h'
  exact ⟨m + n, (run_add hm n).trans hn⟩

theorem advances_of_step (h : i.step e = .on e') (h' : i.Reaches e' e'') : i.Advances e e'' := by
  obtain ⟨n, hn⟩ := h'
  refine ⟨n, ?_⟩
  rw [run, h]
  exact hn

theorem Advances.reaches (h : i.Advances e e') : i.Reaches e e' := by
  obtain ⟨n, hn⟩ := h
  exact ⟨n + 1, hn⟩

theorem reaches_of_step (h : i.step e = .on e') : i.Reaches e e' :=
  (advances_of_step h .refl).reaches

/-- One step, and then more. -/
theorem Reaches.head (h : i.step e = .on e') (h' : i.Reaches e' e'') : i.Reaches e e'' :=
  (advances_of_step h h').reaches

theorem Advances.trans (h : i.Advances e e') (h' : i.Reaches e' e'') : i.Advances e e'' := by
  obtain ⟨m, hm⟩ := h
  obtain ⟨n, hn⟩ := h'
  refine ⟨m + n, ?_⟩
  rw [Nat.add_right_comm]
  exact (run_add hm n).trans hn

theorem Reaches.leaves {status : UInt32} {output : List Event} (h : i.Reaches e e')
    (h' : i.Leaves e' status output) : i.Leaves e status output := by
  obtain ⟨m, hm⟩ := h
  obtain ⟨n, hn⟩ := h'
  exact ⟨m + n, (run_add hm n).trans hn⟩

/-- Fewer steps go on as well. -/
theorem exists_run_eq_on_of_le {m n : Nat} (h : i.run n e = .on e') (hmn : m ≤ n) :
    ∃ e'', i.run m e = .on e'' := by
  induction m generalizing e n with
  | zero => exact ⟨e, rfl⟩
  | succ m ih =>
    obtain ⟨n, rfl⟩ := Nat.exists_eq_succ_of_ne_zero (Nat.ne_zero_of_lt hmn)
    rw [run] at h ⊢
    split at h
    · exact ih h (by omega)
    · next hstep =>
      exact absurd h (hstep e')

/-- **An execution that always advances goes on forever.** -/
theorem exists_run_eq_on_of_advances {P : Execution → Prop}
    (h : ∀ e, P e → ∃ e', i.Advances e e' ∧ P e') (he : P e) (n : Nat) :
    ∃ e', i.run n e = .on e' := by
  suffices ∀ n e, P e → ∃ m e', n ≤ m ∧ i.run m e = .on e' by
    obtain ⟨m, e', hle, hrun⟩ := this n e he
    exact exists_run_eq_on_of_le hrun hle
  intro n
  induction n with
  | zero => exact fun e _ ↦ ⟨0, e, Nat.le_refl 0, rfl⟩
  | succ n ih =>
    intro e he
    obtain ⟨e₁, ⟨k, hk⟩, he₁⟩ := h e he
    obtain ⟨m, e₂, hle, hrun⟩ := ih e₁ he₁
    exact ⟨k + 1 + m, e₂, by omega, (run_add hk m).trans hrun⟩

/-! ### Operations that go on with the next line -/

variable {q q' : Processor} {output : List Event} {rest : List Line}

theorem step_operation {o : Operation} (ho : o.isPlain = true) (h : o.apply q = q') :
    i.step ⟨.operation o :: rest, q, output⟩ = .on ⟨rest, q', output⟩ := by
  subst h
  cases o with
  | branch => cases ho
  | call => cases ho
  | service => cases ho
  | pop first last more => cases more <;> first | rfl | cases ho
  | _ => rfl

theorem reaches_operation {o : Operation} (ho : o.isPlain = true) (h : o.apply q = q') :
    i.Reaches ⟨.operation o :: rest, q, output⟩ ⟨rest, q', output⟩ :=
  reaches_of_step (step_operation ho h)

end Image

end CursorMachine.Arm
