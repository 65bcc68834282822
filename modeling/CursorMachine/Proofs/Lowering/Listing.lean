import CursorMachine.Arm.Lowering
import CursorMachine.Proofs.Lowering.Spelling

/-!
# Lowered code as a text

`Line.IsLowered` lists the lines that lowering makes, and `allLowered_lower` says that there are no
others: what holds of every line of lowered code is read off this list.

So the text of lowered code can be read, and reads back as the code with names for labels
(`readAll?_text_lower`). Every label is an identifier: the entry by the first demand of lowering,
the labels of functions because their names are, all others by their form. Every remark is
printable, since it is made of numbers and of instructions as they are written.
-/

namespace CursorMachine.Arm

/-! ### Labels -/

theorem isIdentifier_append {s t : String} (hs : Text.isIdentifier s = true)
    (ht : t.toList.all Text.isIdentifierTail = true) : Text.isIdentifier (s ++ t) = true := by
  rcases hname : s.toList with - | ⟨c, cs⟩
  · exact absurd hname (Text.ne_nil_of_isIdentifier hs)
  · rw [Text.isIdentifier, hname] at hs
    rw [Text.isIdentifier, String.toList_append, hname, List.cons_append]
    simp_all [List.all_append]

theorem isIdentifier_node (line : Nat) : Text.isIdentifier (Label.node line).text = true := by
  refine isIdentifier_append (s := "node_") rfl ?_
  exact List.all_eq_true.2 fun _ ↦ Text.isIdentifierTail_of_mem_nat

theorem isIdentifier_function {name : String} (h : Text.isIdentifier name = true) :
    Text.isIdentifier (Label.function name).text = true :=
  isIdentifier_append (s := "function_") rfl
    (List.all_eq_true.2 fun _ ↦ Text.isIdentifierTail_of_mem h)

theorem isIdentifier_routine (r : Routine) : Text.isIdentifier (Label.routine r).text = true := by
  cases r <;> rfl

/-! ### The lines of lowered code -/

/-- A remark of lowered code. Those with numbers count what is lowered, and that of a statement is
the statement as a program writes it. -/
inductive IsRemark : String → Prop where
  | header (length size : Nat) :
      IsRemark s!"HRA program: {length} line(s), {size} memory cell(s)"
  | statement (line : Nat) {i : Instruction} (h : i.InRange) : IsRemark s!"{line}: {i.text}"
  | clear (size : Nat) : IsRemark s!"reserve and clear {size} memory cell(s)"
  | inputs (count : Nat) : IsRemark s!"store {count} input value(s)"
  | print : IsRemark "print r0 in decimal to stdout"
  | exit : IsRemark "faults and exit; the status of a normal exit is memory cell 0"

/-- A place that lowered code can branch to. -/
inductive Label.IsTarget : Label → Prop where
  | node (line : Nat) : IsTarget (.node line)
  | function {name : String} (h : Text.isIdentifier name = true) : IsTarget (.function name)
  | routine (r : Routine) : IsTarget (.routine r)

/-- The registers that constants are put into. -/
def constantRegisters : List Register := [.r0, .r1, .r2, .r3]

/-- The operations of lowered code that neither branch nor put a constant of the program into a
register: first those of the setup, then those of statements, the printing routine and the exit. -/
def ownOperations : List Operation :=
  [.move .always .fp (.register .sp), .arithmetic .subtract .always .sp .sp (.register .r1),
    .move .always .r0 (.immediate 0), .move .always .r2 (.register .sp),
    .compare .r2 (.register .fp), .store .lower .r0 (.postIndexed .r2 4),
    .arithmetic .subtract .always .r4 .fp (.immediate 4),
    .load .r0 (.below .fp .r2), .load .r1 (.below .fp .r3), .load .r0 (.offset .r4 0),
    .store .always .r0 (.below .fp .r1), .store .always .r0 (.offset .r4 0),
    .store .always .r2 (.offset .r4 0), .arithmetic .subtract .always .r4 .r4 (.register .r1),
    .arithmetic .add .always .r4 .r4 (.register .r1),
    .arithmetic .subtract .always .r1 .fp (.immediate 4),
    .arithmetic .subtract .always .r1 .fp (.register .r1),
    .arithmetic .subtract .always .r4 .fp (.register .r1),
    .compare .r4 (.register .r1), .compare .r0 (.register .r1),
    combine .add, combine .subtract, combine .multiply,
    .push .r4 .r7 .lr, .arithmetic .subtract .always .sp .sp (.immediate 16),
    .arithmetic .add .always .r5 .sp (.immediate 16), .move .always .r6 (.register .r5),
    .move .always .r7 (.register .r0), .compare .r0 (.immediate 0),
    .arithmetic .reverseSubtract .less .r0 .r0 (.immediate 0), .multiplyLong .r2 .r3 .r0 .r3,
    .shiftRight .r3 .r3 3, .arithmetic .add .always .r2 .r3 (.shifted .r3 2),
    .arithmetic .subtract .always .r2 .r0 (.shifted .r2 1),
    .arithmetic .add .always .r2 .r2 (.immediate 48),
    .storeByte .always .r2 (.preIndexed .r6 (-1)), .moveFlags .r0 .r3,
    .compare .r7 (.immediate 0), .move .less .r2 (.immediate 45),
    .storeByte .less .r2 (.preIndexed .r6 (-1)), .move .always .r0 (.immediate 1),
    .move .always .r1 (.register .r6), .arithmetic .subtract .always .r2 .r5 (.register .r6),
    .move .always .r7 (.immediate 4), .service, .arithmetic .add .always .sp .sp (.immediate 16),
    .pop .r4 .r7 .pc,
    .move .always .r0 (.immediate memoryFaultStatus),
    .move .always .r0 (.immediate instructionFaultStatus), .load .r0 (.offset .fp (-4)),
    .move .always .sp (.register .fp), .move .always .r7 (.immediate 1)]

/-- A line that lowering makes, for an entry. -/
inductive Line.IsLowered (entry : String) : Line → Prop where
  | remark {text : String} (h : IsRemark text) : IsLowered entry (.remark text)
  | entry : IsLowered entry (.label (.entry entry))
  | label {l : Label} (h : l.IsTarget) : IsLowered entry (.label l)
  | visible : IsLowered entry (.directive (.visible (.entry entry)))
  | directive {d : Directive} (h : d ∈ [.unifiedSyntax, .architecture, .code]) :
      IsLowered entry (.directive d)
  | branch (c : Condition) {l : Label} (h : l.IsTarget) : IsLowered entry (.operation (.branch c l))
  | call {l : Label} (h : l.IsTarget) : IsLowered entry (.operation (.call l))
  | constant {r : Register} (n : UInt32) (hr : r ∈ constantRegisters) {o : Operation}
      (h : o ∈ [.move .always r (.immediate n), .moveLow r n, .moveHigh r n]) :
      IsLowered entry (.operation o)
  | own {o : Operation} (h : o ∈ ownOperations) : IsLowered entry (.operation o)

/-- Every line is one that lowering makes. -/
def AllLowered (entry : String) (ls : List Line) : Prop := ∀ line ∈ ls, line.IsLowered entry

section Parts

variable {entry : String} {ls ls' : List Line} (size : Nat) (verbose : Bool)

@[simp]
theorem allLowered_nil : AllLowered entry [] := by
  simp [AllLowered]

@[simp]
theorem allLowered_cons {line : Line} :
    AllLowered entry (line :: ls) ↔ line.IsLowered entry ∧ AllLowered entry ls :=
  List.forall_mem_cons

@[simp]
theorem allLowered_append :
    AllLowered entry (ls ++ ls') ↔ AllLowered entry ls ∧ AllLowered entry ls' :=
  List.forall_mem_append

theorem allLowered_remark {text : String} (h : IsRemark text) :
    AllLowered entry (remark verbose text) := by
  cases verbose with
  | false => exact allLowered_nil
  | true => exact allLowered_cons.2 ⟨.remark h, allLowered_nil⟩

theorem allLowered_jump {l : Label} (h : l.IsTarget) : AllLowered entry [jump l] :=
  allLowered_cons.2 ⟨.branch _ h, allLowered_nil⟩

theorem allLowered_loadConstant {r : Register} (hr : r ∈ constantRegisters) (n : UInt32) :
    AllLowered entry (loadConstant r n) := by
  have hmove (k : UInt32) : (Line.operation (.move .always r (.immediate k))).IsLowered entry :=
    .constant k hr (by simp)
  have hlow (k : UInt32) : (Line.operation (.moveLow r k)).IsLowered entry :=
    .constant k hr (by simp)
  have hhigh (k : UInt32) : (Line.operation (.moveHigh r k)).IsLowered entry :=
    .constant k hr (by simp)
  unfold loadConstant
  split
  · simp [hmove]
  · split <;> simp [hlow, hhigh]

@[simp]
theorem allLowered_storeInput (v : Cell) (address : Nat) :
    AllLowered entry (storeInput v address) := by
  simp (disch := decide) [storeInput, allLowered_loadConstant, Line.IsLowered.own]

theorem allLowered_moveCursor (d : Direction) (amount : Nat) :
    AllLowered entry (moveCursor size d amount) := by
  have hfault : (Label.routine .memoryFault).IsTarget := .routine _
  by_cases h : size ≤ amount
  · simp [moveCursor, h, allLowered_jump hfault]
  · cases d <;> simp (disch := decide) [moveCursor, h, allLowered_loadConstant,
      Line.IsLowered.branch _ hfault, Line.IsLowered.own]

theorem allLowered_lowerInstruction (line : Nat) {i : Instruction} (h : i.InRange) :
    AllLowered entry (lowerInstruction size line i) := by
  cases i with
  | moveBy d n => exact allLowered_moveCursor size d n
  | jumpBy d n => cases d <;> exact allLowered_jump (.node _)
  | jumpTo => exact allLowered_jump (.node _)
  | call => exact allLowered_jump (.function h)
  | exit => exact allLowered_jump (.routine _)
  | function => exact allLowered_cons.2 ⟨.label (.function h), allLowered_nil⟩
  | print =>
    have hprint : (Label.routine .print).IsTarget := .routine _
    simp (disch := decide) [lowerInstruction, Line.IsLowered.call hprint, Line.IsLowered.own]
  | compare =>
    have hnode (line : Nat) : (Label.node line).IsTarget := .node line
    simp (disch := decide) [lowerInstruction, loadCell, allLowered_jump (hnode _),
      Line.IsLowered.branch _ (hnode _), allLowered_loadConstant, Line.IsLowered.own]
  | update u v =>
    cases u <;>
      simp (disch := decide) [lowerInstruction, allLowered_loadConstant, Line.IsLowered.own]
  | moveTo | copyTo | close | set =>
    simp (disch := decide) [lowerInstruction, allLowered_loadConstant, Line.IsLowered.own]

theorem allLowered_lowerStatement {s : Statement} (h : s.instruction.InRange) :
    AllLowered entry (lowerStatement size verbose s) :=
  allLowered_append.2 ⟨allLowered_cons.2 ⟨.label (.node _), allLowered_remark _ (.statement _ h)⟩,
    allLowered_lowerInstruction size s.line h⟩

theorem allLowered_header (length : Nat) : AllLowered entry (header length size) := by
  refine allLowered_cons.2 ⟨.remark (.header length size), ?_⟩
  simp [Line.IsLowered.directive]

theorem allLowered_setup (options : Options) (inputs : List Cell) :
    AllLowered options.entry (setup options size inputs) := by
  have hinputs : AllLowered options.entry
      (inputs.zipIdx.flatMap fun v ↦ storeInput v.1 v.2) :=
    List.forall_mem_flatMap.2 fun v _ ↦ allLowered_storeInput v.1 v.2
  have hclear : (Label.routine .clear).IsTarget := .routine _
  simp (disch := decide) [setup, Line.IsLowered.visible, Line.IsLowered.entry, hinputs,
    allLowered_remark _ (.clear _), allLowered_remark _ (.inputs _), allLowered_loadConstant,
    Line.IsLowered.label hclear, Line.IsLowered.branch _ hclear, Line.IsLowered.own,
    -Nat.toString_eq_repr]

theorem allLowered_arrival (layout : Layout) (options : Options) (inputs : List Cell)
    (place : Nat) : AllLowered options.entry (arrival layout options inputs place) := by
  unfold arrival
  split
  · split
    · exact allLowered_append.2 ⟨allLowered_jump (.node _), allLowered_setup _ options inputs⟩
    · exact allLowered_setup _ options inputs
  · exact allLowered_nil

theorem allLowered_printRoutine : AllLowered entry (printRoutine verbose) := by
  have hroutine (r : Routine) : (Label.routine r).IsTarget := .routine r
  simp (disch := decide) [printRoutine, allLowered_remark _ .print, allLowered_loadConstant,
    Line.IsLowered.label (hroutine _), Line.IsLowered.branch _ (hroutine _), Line.IsLowered.own]

theorem allLowered_exitRoutines : AllLowered entry (exitRoutines verbose) := by
  have hroutine (r : Routine) : (Label.routine r).IsTarget := .routine r
  simp (disch := decide) [exitRoutines, jump, allLowered_remark _ .exit,
    Line.IsLowered.label (hroutine _), Line.IsLowered.branch _ (hroutine _), Line.IsLowered.own]

end Parts

/-- **The lines of lowered code** are those of the list, whatever is lowered. -/
theorem allLowered_lower {p : Program} (hp : p.WellFormed) (layout : Layout) (options : Options)
    (inputs : List Cell) : AllLowered options.entry (lower p layout options inputs) := by
  have hstatements : AllLowered options.entry (p.statements.zipIdx.flatMap fun v ↦
      arrival layout options inputs v.2 ++
        lowerStatement layout.size options.verbose v.1) := by
    refine List.forall_mem_flatMap.2 fun v hv ↦ ?_
    exact allLowered_append.2 ⟨allLowered_arrival layout options inputs v.2,
      allLowered_lowerStatement _ _ (hp.inRange (List.fst_mem_of_mem_zipIdx hv))⟩
  have hlast : AllLowered options.entry
      [.label (.node (p.length + 1)), jump (.routine .instructionFault)] :=
    allLowered_cons.2 ⟨.label (.node _), allLowered_jump (.routine _)⟩
  rw [lower]
  simp only [allLowered_append]
  exact ⟨⟨⟨⟨⟨allLowered_header _ _, hstatements⟩, allLowered_arrival _ _ _ _⟩, hlast⟩,
    allLowered_printRoutine _⟩, allLowered_exitRoutines _⟩

/-! ### Reading lowered code -/

theorem Label.IsTarget.isIdentifier {l : Label} (h : l.IsTarget) :
    Text.isIdentifier l.text = true := by
  cases h with
  | node line => exact isIdentifier_node line
  | function h => exact isIdentifier_function h
  | routine r => exact isIdentifier_routine r

theorem IsRemark.printable {text : String} (h : IsRemark text) : Text.Printable text := by
  cases h with
  | header length size =>
    exact .append (.append (.append (.append rfl (Text.printable_nat length)) rfl)
      (Text.printable_nat size)) rfl
  | statement line h =>
    exact .append (.append (Text.printable_nat line) rfl) (Instruction.printable_text h)
  | clear size => exact .append (.append rfl (Text.printable_nat size)) rfl
  | inputs count => exact .append (.append rfl (Text.printable_nat count)) rfl
  | print | exit => exact rfl

/-- Every line can be read. -/
def AllSpelled (ls : List Line) : Prop := ∀ line ∈ ls, line.IsSpelled

/-- Lowered lines can be read, when the entry is an identifier. -/
theorem Line.IsLowered.isSpelled {entry : String} (hentry : Text.isIdentifier entry = true)
    {line : Line} (h : line.IsLowered entry) : line.IsSpelled := by
  have hdirective : ∀ d ∈ [Directive.unifiedSyntax, .architecture, .code],
      (Line.directive d).mentioned? = none := by
    decide
  have hown : ∀ o ∈ ownOperations, (Line.operation o).mentioned? = none := by decide
  cases h with
  | remark h => exact h.printable
  | entry | visible =>
    rintro l ⟨⟩
    exact hentry
  | label h | branch _ h | call h =>
    rintro l ⟨⟩
    exact h.isIdentifier
  | directive h =>
    intro l hl
    rw [hdirective _ h] at hl
    cases hl
  | @constant r n hr o h =>
    simp only [List.mem_cons, List.not_mem_nil, or_false] at h
    rcases h with rfl | rfl | rfl <;> rintro l ⟨⟩
  | own h =>
    intro l hl
    rw [hown _ h] at hl
    cases hl

/-- **Lowered code can be read**, when its entry is an identifier. -/
theorem allSpelled_lower {p : Program} (hp : p.WellFormed) (layout : Layout) {options : Options}
    (inputs : List Cell) (h : Text.isIdentifier options.entry = true) :
    AllSpelled (lower p layout options inputs) :=
  fun line hline ↦ (allLowered_lower hp layout options inputs line hline).isSpelled h

/-- **The text of lowered code reads back as the code**, with names for labels. -/
theorem readAll?_text_lower {p : Program} (hp : p.WellFormed) (layout : Layout) {options : Options}
    (inputs : List Cell) (h : Text.isIdentifier options.entry = true) :
    readAll? (text (lower p layout options inputs)) =
      some ((lower p layout options inputs).map Line.named) :=
  readAll?_text (allSpelled_lower hp layout inputs h)

end CursorMachine.Arm
