import CursorMachine.CommandLine.Invocation
import CursorMachine.Proofs.Reading.Operands

/-!
# What a request plans

`Request.plan` meets faults in order, shows the listing, and then decides what is left to do.
Everything before the listing is `Request.judge`: it gives the program and the setup, or the first
fault (`Request.judge_eq_ok_iff`). Everything after it is `Request.task`, which has one law for each
way it can go. What a request asks for apart from that, such as what to show and where to write, has
no part in the judgement.
-/

namespace CursorMachine.CommandLine

/-- Faults may be worded anew, what is read is the same. -/
theorem mapError_eq_ok_iff {α ε ε' : Type} {f : ε → ε'} {x : Except ε α} {a : α} :
    x.mapError f = .ok a ↔ x = .ok a := by
  cases x <;> simp [Except.mapError]

namespace Request

variable {r : Request} {content : Except String ByteArray} {p : Program} {setup : Setup}

/-! ### Up to the listing -/

/-- The program and the setup of a request whose program file has this content, or the first fault.
-/
def judge (r : Request) (content : Except String ByteArray) : Except String (Program × Setup) := do
  let text ← r.source content
  let cells ← r.cells
  let inputs ← r.inputs.mapM readInput
  return (← r.program text, { cells, inputs })

/-- What is shown of a program before it is compiled or run: its listing, if that is asked for. -/
def preface (r : Request) (p : Program) : String :=
  if r.listing then CommandLine.listing p else ""

theorem plan_eq (r : Request) (content : Except String ByteArray) :
    r.plan content =
      match r.judge content with
      | .error message => ⟨"", .fail message⟩
      | .ok (p, setup) => ⟨r.preface p ++ (r.task p setup).1, (r.task p setup).2⟩ :=
  rfl

theorem plan_of_judge_error {message : String} (h : r.judge content = .error message) :
    r.plan content = ⟨"", .fail message⟩ := by
  rw [plan_eq, h]

theorem plan_of_judge_ok (h : r.judge content = .ok (p, setup)) :
    r.plan content = ⟨r.preface p ++ (r.task p setup).1, (r.task p setup).2⟩ := by
  rw [plan_eq, h]

theorem source_eq_ok_iff {text : String} :
    r.source content = .ok text ↔
      ∃ bytes, content = .ok bytes ∧ String.fromUTF8? bytes = some text := by
  unfold source
  rcases content with reason | bytes
  · simp
  · cases h : String.fromUTF8? bytes <;> simp [h]

theorem program_eq_ok_iff {text : String} : r.program text = .ok p ↔ Program.ofText text = .ok p :=
  mapError_eq_ok_iff

/-- **What it takes to come to the listing**: the file can be read and is a text, the memory size
and the inputs are numbers, and the text is a program. -/
theorem judge_eq_ok_iff :
    r.judge content = .ok (p, setup) ↔
      ∃ bytes text, content = .ok bytes ∧ String.fromUTF8? bytes = some text ∧
        r.cells = .ok setup.cells ∧ r.inputs.mapM readInput = .ok setup.inputs ∧
        Program.ofText text = .ok p := by
  unfold judge
  simp only [bind_eq_ok_iff, source_eq_ok_iff, program_eq_ok_iff]
  constructor
  · rintro ⟨text, ⟨bytes, hcontent, htext⟩, cells, hcells, inputs, hinputs, p', hp, heq⟩
    cases heq
    exact ⟨bytes, text, hcontent, htext, hcells, hinputs, hp⟩
  · rintro ⟨bytes, text, hcontent, htext, hcells, hinputs, hp⟩
    exact ⟨text, ⟨bytes, hcontent, htext⟩, _, hcells, _, hinputs, p, hp, rfl⟩

/-! ### After the listing -/

theorem task_of_prepare_error {e : Error} (h : Machine.prepare p setup = .error e) :
    r.task p setup = ("", .fail e.message) := by
  rw [task, h]

section Prepared

variable {m : Machine setup.cells} (hm : Machine.prepare p setup = .ok m)

include hm

theorem task_of_interpret (hmode : r.mode = .interpret) :
    r.task p setup =
      ("", .interpret { view := r.view, session := { program := p, machine := m } }) := by
  rw [task, hm, hmode]

theorem task_of_generate_error {e : Error} (hmode : r.mode = .compile)
    (hlines : Arm.generate p m.layout ⟨r.entry, r.comments⟩ setup.inputs = .error e) :
    r.task p setup = ("", .fail e.message) := by
  rw [task, hm, hmode]
  dsimp only
  rw [hlines]

theorem task_of_generate_ok {lines : List Arm.Line} (hmode : r.mode = .compile)
    (hlines : Arm.generate p m.layout ⟨r.entry, r.comments⟩ setup.inputs = .ok lines) :
    r.task p setup =
      match r.destination with
      | some path => ("", .write path (Arm.text lines))
      | none => (Arm.text lines, .finish) := by
  rw [task, hm, hmode]
  dsimp only
  cases r.destination <;> rw [hlines]

end Prepared

end Request

end CursorMachine.CommandLine
