import CursorMachine.CommandLine.Arguments
import CursorMachine.Session

/-!
# Interpreting on the command line

Interpretation shows its work as it goes: `Interpretation.advance` takes one step and says what to
show now and whether there is more to do. To show all machines it goes on by `Session.next`, which
yields them; otherwise by `Session.step`.

When the program has stopped, the last machine is shown if only that one is wanted, then the printed
values without anything between them, then the first cell. A failure shows nothing of this; what was
shown before it stays.
-/

namespace CursorMachine

/-- The first cell. There is one, because the cursor is on some cell. -/
def Machine.first {size : Nat} (m : Machine size) : Cell :=
  m.memory.get ⟨0, Nat.zero_lt_of_lt m.cursor.isLt⟩

namespace CommandLine

/-- An interpretation under way. -/
structure Interpretation (size : Nat) where
  view : View
  session : Session size
  /-- The machine shown last. -/
  last : Option (Machine size) := none
  deriving DecidableEq

/-- What a step of an interpretation leads to. -/
inductive Progress (size : Nat) where
  /-- Show a text and go on. -/
  | more (shown : String) (rest : Interpretation size)
  /-- Show a text; the program has stopped. -/
  | stopped (shown : String)
  /-- The program has failed. -/
  | failed (message : String)
  deriving DecidableEq

namespace Interpretation

variable {size : Nat}

/-- What is shown when the program has stopped on a machine. -/
def conclusion (view : View) (m : Machine size) : String :=
  let state := if view = .final then m.text ++ "\n" else ""
  let printed :=
    if m.printed.isEmpty then ""
    else String.join (m.printed.toList.map fun v ↦ toString v.toInt) ++ "\n"
  state ++ printed ++ s!"Output: {m.first.toInt}\n"

/-- The wording of an error that a running program meets. -/
def failure (e : Error) : String := "runtime error: " ++ e.message

/-- Takes one step. -/
def advance (i : Interpretation size) : Progress size :=
  if i.view = .all then
    match i.session.next with
    | (session, some (.ok m)) => .more (m.text ++ "\n") { i with session, last := some m }
    | (_, some (.error e)) => .failed (failure e)
    | (_, none) =>
      match i.last with
      | some m => .stopped (conclusion i.view m)
      | none => .failed "program produced no state"
  else
    match i.session.step with
    | (_, .error e) => .failed (failure e)
    | (session, .ok .exited) => .stopped (conclusion i.view session.machine)
    | (session, .ok .running) => .more "" { i with session }

end Interpretation

end CommandLine

end CursorMachine
