import CursorMachine.Proofs.Lowering.Labels

/-!
# Walking through lowered code

`codeAt` is the code from the label of a line on. Three ways lead there: a branch to the label of
the line (`reaches_jump_node`), a branch to the function that the line opens
(`reaches_jump_function`), and falling off the code of the line above (`reaches_codeAfter`), past
the setup if it stands in between. Three labels lead out of the program, each with its exit status
(`leaves_memoryFaultCode`, `leaves_instructionFault`, `leaves_exit`).
-/

namespace CursorMachine.Arm

variable {p : Program} {layout : Layout} {options : Options} {inputs : List Cell}

/-! ### The code of a place -/

/-- The code after the statement at a place. -/
def codeAfter (p : Program) (layout : Layout) (options : Options) (inputs : List Cell)
    (place : Nat) : List Line :=
  codeFrom layout options inputs (place + 1) (p.statements.drop (place + 1)) ++ routines options

/-- The code from the label of a place on. -/
def codeAt (p : Program) (layout : Layout) (options : Options) (inputs : List Cell) (place : Nat) :
    List Line :=
  match p.statement? place with
  | some s =>
    lowerStatement layout.size options.verbose s ++ codeAfter p layout options inputs place
  | none => .label (.node (place + 1)) :: jump (.routine .instructionFault) :: routines options

theorem codeAt_of_statement? {place : Nat} {s : Statement} (h : p.statement? place = some s) :
    codeAt p layout options inputs place =
      lowerStatement layout.size options.verbose s ++ codeAfter p layout options inputs place := by
  rw [codeAt, h]

theorem codeAt_length :
    codeAt p layout options inputs p.length =
      .label (.node (p.length + 1)) :: jump (.routine .instructionFault) :: routines options := by
  rw [codeAt, Program.statement?_eq_none_iff.2 (Nat.le_refl _)]

/-- From a place on, there is its setup if it is the first to run, and then its code. -/
theorem codeFrom_drop {place : Nat} (h : place ≤ p.length) :
    codeFrom layout options inputs place (p.statements.drop place) ++ routines options =
      arrival layout options inputs place ++ codeAt p layout options inputs place := by
  rcases hs : p.statement? place with - | s
  · have hplace : place = p.length := Nat.le_antisymm h (Program.statement?_eq_none_iff.1 hs)
    subst hplace
    have hdrop : p.statements.drop p.length = [] := List.drop_length
    rw [hdrop, codeAt_length, codeFrom]
    simp
  · obtain ⟨hlt, rfl⟩ := Program.statement?_eq_some_iff.1 hs
    rw [codeAt_of_statement? hs, List.drop_eq_getElem_cons hlt, codeFrom, codeAfter]
    simp only [List.append_assoc]

section Suffixes

variable (layout options inputs)

/-- The code from a place on is the end of the whole code. -/
theorem codeFrom_suffix_lower {place : Nat} (h : place ≤ p.length) :
    codeFrom layout options inputs place (p.statements.drop place) ++ routines options <:+
      lower p layout options inputs := by
  induction place with
  | zero =>
    rw [lower_eq, List.append_assoc, List.drop_zero]
    exact List.suffix_append _ _
  | succ place ih =>
    obtain ⟨s, hs⟩ := Option.ne_none_iff_exists'.1
      (mt Program.statement?_eq_none_iff.1 (by omega : ¬p.length ≤ place))
    have hplace := ih (by omega)
    rw [codeFrom_drop (by omega), codeAt_of_statement? hs] at hplace
    exact ((List.suffix_append _ _).trans (List.suffix_append _ _)).trans hplace

theorem codeAt_suffix_lower {place : Nat} (h : place ≤ p.length) :
    codeAt p layout options inputs place <:+ lower p layout options inputs := by
  have hfrom := codeFrom_suffix_lower layout options inputs h
  rw [codeFrom_drop h] at hfrom
  exact (List.suffix_append _ _).trans hfrom

/-- The code of a place starts with the label of its line. -/
theorem exists_codeAt_eq_cons (hp : p.WellFormed) (place : Nat) :
    ∃ after, codeAt p layout options inputs place = .label (.node (place + 1)) :: after := by
  rcases hs : p.statement? place with - | s
  · exact ⟨_, by rw [codeAt, hs]⟩
  · rw [codeAt_of_statement? hs, lowerStatement, hp.line_eq hs]
    exact ⟨_, rfl⟩

end Suffixes

/-! ### The exit routines -/

/-- The code after the label that leaves with the status in the first register. -/
def terminateCode : List Line :=
  [.operation (.move .always .sp (.register .fp)), .operation (.move .always .r7 (.immediate 1)),
    .operation .service]

/-- The code after the label that leaves with the first cell. -/
def exitCode : List Line :=
  .operation (.load .r0 (.offset .fp (-4))) :: .label (.routine .terminate) :: terminateCode

/-- The code after the label for a program that has run past its last line. -/
def instructionFaultCode : List Line :=
  .operation (.move .always .r0 (.immediate instructionFaultStatus)) ::
    jump (.routine .terminate) :: .label (.routine .exit) :: exitCode

/-- The code after the label for a cursor that has left memory. -/
def memoryFaultCode : List Line :=
  .operation (.move .always .r0 (.immediate memoryFaultStatus)) ::
    jump (.routine .terminate) :: .label (.routine .instructionFault) :: instructionFaultCode

/-! ### Images of a program -/

namespace Image

/-- The image holds the code of a program that was read. -/
structure Holds (i : Image) (p : Program) (layout : Layout) (options : Options)
    (inputs : List Cell) : Prop where
  lines_eq : i.lines = lower p layout options inputs
  wellFormed : p.WellFormed
  unambiguous : Unambiguous i.lines

variable {i : Image} {q : Processor} {output : List Event} {rest : List Line}

theorem step_jump {target : Label} {ahead : List Line}
    (h : seek target.text i.lines = some ahead) :
    i.step ⟨Arm.jump target :: rest, q, output⟩ = .on ⟨ahead, q, output⟩ := by
  have hjump : i.step ⟨Arm.jump target :: rest, q, output⟩ = i.jump ⟨rest, q, output⟩ target := rfl
  rw [hjump, jump, h]

theorem reaches_remark (verbose : Bool) (text : String) :
    i.Reaches ⟨remark verbose text ++ rest, q, output⟩ ⟨rest, q, output⟩ := by
  cases verbose
  · exact .refl
  · exact reaches_of_step rfl

theorem leaves_service (h : q.register .r7 = Execution.exitService) :
    i.Leaves ⟨.operation .service :: rest, q, output⟩ (q.register .r0) output := by
  refine ⟨1, ?_⟩
  have hstep : i.step ⟨.operation .service :: rest, q, output⟩ =
      Execution.serve ⟨rest, q, output⟩ := rfl
  rw [run, hstep, Execution.serve, if_pos h]

namespace Holds

variable (hi : i.Holds p layout options inputs)

include hi

/-- A label of the code is found where it stands. -/
theorem seek_label {after : List Line} {l : Label}
    (h : .label l :: after <:+ lower p layout options inputs) :
    seek l.text i.lines = some (.label l :: after) := by
  obtain ⟨before, hbefore⟩ := h
  have hlines := hi.lines_eq.trans hbefore.symm
  rw [hlines]
  exact Arm.seek_label (hlines ▸ hi.unambiguous)

theorem seek_node {place : Nat} (h : place ≤ p.length) :
    seek (Label.node (place + 1)).text i.lines = some (codeAt p layout options inputs place) := by
  have hsuffix := codeAt_suffix_lower layout options inputs h
  obtain ⟨after, hafter⟩ := exists_codeAt_eq_cons layout options inputs hi.wellFormed place
  rw [hafter] at hsuffix ⊢
  exact hi.seek_label hsuffix

/-- A branch to a line leads to the code of its place. -/
theorem reaches_jump_node {place : Nat} (h : place ≤ p.length) :
    i.Reaches ⟨Arm.jump (.node (place + 1)) :: rest, q, output⟩
      ⟨codeAt p layout options inputs place, q, output⟩ :=
  reaches_of_step (step_jump (hi.seek_node h))

/-- **Falling off a line leads to the next one**, past the setup. -/
theorem reaches_codeAfter {place : Nat} (h : place + 1 ≤ p.length) :
    i.Reaches ⟨codeAfter p layout options inputs place, q, output⟩
      ⟨codeAt p layout options inputs (place + 1), q, output⟩ := by
  rw [codeAfter, codeFrom_drop h, arrival]
  split
  · rw [if_pos (Nat.succ_pos place)]
    exact hi.reaches_jump_node h
  · exact .refl

/-- **A branch to a function leads to the first line of its body.** -/
theorem reaches_jump_function {place : Nat} {s : Statement} {name : String}
    (hs : p.statement? place = some s) (hname : s.instruction = .function name) :
    i.Reaches ⟨Arm.jump (.function name) :: rest, q, output⟩
      ⟨codeAt p layout options inputs (place + 1), q, output⟩ := by
  have hlt := Program.lt_length_of_statement? hs
  have hlabel : .label (.function name) :: codeAfter p layout options inputs place <:+
      lower p layout options inputs := by
    have hsuffix := codeAt_suffix_lower layout options inputs (Nat.le_of_lt hlt)
    rw [codeAt_of_statement? hs, lowerStatement, hname, List.append_assoc] at hsuffix
    exact (List.suffix_append _ _).trans hsuffix
  have hbody : i.step ⟨.label (.function name) :: codeAfter p layout options inputs place, q,
      output⟩ = .on ⟨codeAfter p layout options inputs place, q, output⟩ := rfl
  exact .head (step_jump (hi.seek_label hlabel)) (.head hbody (hi.reaches_codeAfter hlt))

/-! ### Leaving the program -/

/-- Where the four exit routines are found. Each falls through into the next one or branches to the
last. -/
theorem seek_exitRoutines :
    seek (Label.routine .memoryFault).text i.lines =
        some (.label (.routine .memoryFault) :: memoryFaultCode) ∧
      seek (Label.routine .instructionFault).text i.lines =
        some (.label (.routine .instructionFault) :: instructionFaultCode) ∧
      seek (Label.routine .exit).text i.lines = some (.label (.routine .exit) :: exitCode) ∧
      seek (Label.routine .terminate).text i.lines =
        some (.label (.routine .terminate) :: terminateCode) := by
  have hmemory : .label (.routine .memoryFault) :: memoryFaultCode <:+
      lower p layout options inputs := by
    rw [lower_eq, routines, exitRoutines]
    exact (List.suffix_append _ _).trans ((List.suffix_append _ _).trans (List.suffix_append _ _))
  have hinstruction : .label (.routine .instructionFault) :: instructionFaultCode <:+
      lower p layout options inputs :=
    (List.suffix_append [_, _, _] _).trans hmemory
  have hexit : .label (.routine .exit) :: exitCode <:+ lower p layout options inputs :=
    (List.suffix_append [_, _, _] _).trans hinstruction
  have hterminate : .label (.routine .terminate) :: terminateCode <:+
      lower p layout options inputs :=
    (List.suffix_append [_, _] _).trans hexit
  exact ⟨hi.seek_label hmemory, hi.seek_label hinstruction, hi.seek_label hexit,
    hi.seek_label hterminate⟩

omit hi in
/-- From its last label on, the code leaves with the status in the first register. -/
theorem leaves_terminateCode :
    i.Leaves ⟨terminateCode, q, output⟩ (q.register .r0) output := by
  refine Reaches.leaves (.head rfl (reaches_of_step rfl)) (leaves_service ?_)
  simp [Operation.apply, Operand.value, Execution.exitService]

theorem leaves_jump_terminate :
    i.Leaves ⟨Arm.jump (.routine .terminate) :: rest, q, output⟩ (q.register .r0) output :=
  Reaches.leaves (.head (step_jump hi.seek_exitRoutines.2.2.2) (reaches_of_step rfl))
    leaves_terminateCode

/-- **The routine for addresses leaves with its status.** -/
theorem leaves_memoryFaultCode :
    i.Leaves ⟨.label (.routine .memoryFault) :: memoryFaultCode, q, output⟩ memoryFaultStatus
      output :=
  Reaches.leaves (.head rfl (reaches_of_step rfl))
    (hi.leaves_jump_terminate (q := q.set .r0 memoryFaultStatus))

/-- **A branch to the routine for lines leaves with its status.** -/
theorem leaves_instructionFault :
    i.Leaves ⟨Arm.jump (.routine .instructionFault) :: rest, q, output⟩ instructionFaultStatus
      output :=
  Reaches.leaves
    (.head (step_jump hi.seek_exitRoutines.2.1) (.head rfl (reaches_of_step rfl)))
    (hi.leaves_jump_terminate (q := q.set .r0 instructionFaultStatus))

/-- The place after the last line leaves with the status for lines. -/
theorem leaves_codeAt_length :
    i.Leaves ⟨codeAt p layout options inputs p.length, q, output⟩ instructionFaultStatus
      output := by
  rw [codeAt_length]
  exact (reaches_of_step rfl).leaves (hi.leaves_instructionFault (q := q))

/-- **A branch to the exit leaves with the word below the frame base.** -/
theorem leaves_exit :
    i.Leaves ⟨Arm.jump (.routine .exit) :: rest, q, output⟩ (q.word (q.register .fp - 4))
      output := by
  have hload : (Operation.load .r0 (.offset .fp (-4))).apply q =
      q.set .r0 (q.word (q.register .fp - 4)) := by
    have hdistance : q.register .fp + .ofInt (-4) = q.register .fp - 4 := by
      rw [UInt32.sub_eq_add_neg]
      rfl
    rw [Operation.apply, Address.resolve, hdistance]
  have hexit : i.Reaches ⟨Arm.jump (.routine .exit) :: rest, q, output⟩
      ⟨terminateCode, q.set .r0 (q.word (q.register .fp - 4)), output⟩ := by
    rw [← hload]
    exact .head (step_jump hi.seek_exitRoutines.2.2.1)
      (.head rfl (.head rfl (reaches_of_step rfl)))
  have hleaves := hexit.leaves leaves_terminateCode
  rwa [Processor.register_set, if_pos rfl] at hleaves

end Holds

end Image

end CursorMachine.Arm
