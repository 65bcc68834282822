import CursorMachine.Machine

/-!
# Sessions

A session runs a program on a machine. There are three ways to go on, over one notion of a step.

* `Session.step` runs the statement at the machine's position. Reaching `exit` ends the session and
  is not counted; a step of an ended session changes nothing. A failed step is not counted either
  and does not end the session.
* `Session.next` takes a step and yields the machine after it. It yields one machine for every
  statement, then the machine that `exit` was reached on once more, then nothing. After it has
  yielded an error it yields nothing.
* `Session.run?` takes steps until `exit` or an error. A program need not stop, so the number of
  steps is limited by fuel, and `none` means that the fuel did not suffice.
-/

namespace CursorMachine

/-- Whether a session has ended. -/
inductive Status where
  | running
  | exited
  deriving DecidableEq, Repr

/-- A program being run on a machine. -/
structure Session (size : Nat) where
  program : Program
  machine : Machine size
  status : Status := .running
  /-- `next` has yielded an error. -/
  failed : Bool := false
  /-- How many statements have been carried out. -/
  steps : Nat := 0
  deriving DecidableEq

namespace Session

variable {size : Nat}

/-- Runs the statement at the machine's position. -/
def step (s : Session size) : Session size × Except Error Status :=
  match s.status with
  | .exited => (s, .ok .exited)
  | .running =>
    match s.program.statement? s.machine.position with
    | none => (s, .error (.instructionOutOfRange (s.machine.position + 1) s.program.length))
    | some statement =>
      if statement.instruction = .exit then ({ s with status := .exited }, .ok .exited)
      else
        let { machine, error? } := s.machine.attempt s.program.length statement
        match error? with
        | some e => ({ s with machine }, .error e)
        | none => ({ s with machine, steps := s.steps + 1 }, .ok .running)

/-- Takes a step and yields the machine after it, or the error; nothing once the session has ended
or failed. -/
def next (s : Session size) : Session size × Option (Except Error (Machine size)) :=
  if s.failed || s.status == .exited then (s, none)
  else
    match s.step with
    | (s, .ok _) => (s, some (.ok s.machine))
    | (s, .error e) => ({ s with failed := true }, some (.error e))

/-- The machine on which `exit` is reached, or the first error; `none` when `fuel` steps do not lead
to either. -/
def run? : Nat → Session size → Option (Except Error (Machine size))
  | 0, _ => none
  | fuel + 1, s =>
    match s.step with
    | (_, .error e) => some (.error e)
    | (s, .ok .exited) => some (.ok s.machine)
    | (s, .ok .running) => run? fuel s

/-- Yields at most `limit` items, fewer only when there are no more. -/
def take : Nat → Session size → Session size × List (Except Error (Machine size))
  | 0, s => (s, [])
  | limit + 1, s =>
    match s.next with
    | (s, none) => (s, [])
    | (s, some item) =>
      let (s, items) := take limit s
      (s, item :: items)

/-- Takes steps until `limit` of them have been counted, or until `exit` or an error. -/
def advance : Nat → Session size → Session size
  | 0, s => s
  | limit + 1, s =>
    match s.step with
    | (s, .ok .running) => advance limit s
    | (s, _) => s

end Session

end CursorMachine
