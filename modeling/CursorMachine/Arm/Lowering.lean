import CursorMachine.Arm.Assembly
import CursorMachine.Machine

/-!
# Lowering a program to assembly

Cell `i` lies `(i + 1) * wordBytes` bytes below the frame base `fp`, so higher addresses lie lower.
`r4` always holds the byte address of the current cell; `r0` to `r3` are free for every statement to
use. Every statement starts at the label of its line, and the label after the last line traps the
way a step past the end does.

Nothing is lowered when some statement is certain to fail once it is reached: `Statement.check`
judges every statement against the `Layout`, which is what lowering knows of the machine. A move of
the cursor depends on where the cursor is, so it is checked by the code it is lowered to.

Each statement is lowered on its own. The frame is set up right before the statement that runs
first; the code above branches around the setup.
-/

namespace CursorMachine

namespace Arm

/-! ### What lowering starts from -/

/-- The bytes of a cell. -/
def wordBytes : Nat := 4

/-- The exit status of a program whose cursor has left memory. -/
def memoryFaultStatus : UInt32 := 2

/-- The exit status of a program that has run past its last line. -/
def instructionFaultStatus : UInt32 := 3

/-- How to lower. -/
structure Options where
  /-- The label to start at. -/
  entry : String := "_start"
  /-- Add remarks. -/
  verbose : Bool := false
  deriving DecidableEq, Repr

/-- What lowering knows of the machine that the program would run on. -/
structure Layout where
  /-- The number of cells. -/
  size : Nat
  /-- The place of the statement to run first, counted from zero. -/
  start : Nat
  /-- The functions that can be called. -/
  callable : List String
  deriving DecidableEq, Repr

end Arm

/-- The layout of a machine. -/
def Machine.layout {size : Nat} (m : Machine size) : Arm.Layout :=
  ⟨size, m.position, m.functions.map Prod.fst⟩

/-- Refuses a statement that is certain to fail in a program of `length` lines. The lines a
statement can continue at are judged when the statement itself names them. -/
def Statement.check (layout : Arm.Layout) (length : Nat) (s : Statement) : Except Error Unit :=
  match s.instruction with
  | .moveTo a | .copyTo a => do
    discard <| checkAddress s.line a layout.size
  | .jumpBy d n => do
    discard <| checkTarget (d.travel s.line n) length
  | .jumpTo line => do
    discard <| checkTarget line length
  | .compare _ a b => do
    discard <| checkAddress s.line a layout.size
    discard <| checkAddress s.line b layout.size
    discard <| checkTarget (s.line + 1) length
    discard <| checkTarget (s.line + 2) length
  | .call name =>
    if layout.callable.contains name then .ok () else .error (.functionNotFound s.line name)
  | .moveBy .. | .print | .function _ | .close | .exit | .set _ | .update .. => .ok ()

namespace Arm

/-! ### Small pieces -/

/-- A remark, if remarks are wanted. -/
def remark (verbose : Bool) (text : String) : List Line :=
  if verbose then [.remark text] else []

/-- The distance of a cell below the frame base, in bytes. -/
def cellOffset (address : Nat) : UInt32 :=
  UInt32.ofNat ((address + 1) * wordBytes)

/-- A number of cells in bytes. -/
def cellBytes (cells : Nat) : UInt32 :=
  UInt32.ofNat (cells * wordBytes)

/-- Puts a constant into a register, in as few operations as its size needs. -/
def loadConstant (r : Register) (n : UInt32) : List Line :=
  if n ≤ 0xFF then [.operation (.move .always r (.immediate n))]
  else
    .operation (.moveLow r (n &&& 0xFFFF)) ::
      if n >>> 16 = 0 then [] else [.operation (.moveHigh r (n >>> 16))]

/-- Puts the cell at an address into a register, by way of another register. -/
def loadCell (r scratch : Register) (address : Nat) : List Line :=
  loadConstant scratch (cellOffset address) ++ [.operation (.load r (.below .fp scratch))]

/-- Branches always. -/
def jump (target : Label) : Line :=
  .operation (.branch .always target)

/-! ### Statements -/

/-- Moves the cursor by `n` cells and traps when it has left memory. No cursor survives a move by
the number of cells or more, so such a move traps at once. -/
def moveCursor (size : Nat) (d : Direction) (n : Nat) : List Line :=
  let op : Arithmetic := match d with
    | .forward => .subtract
    | .backward => .add
  if size ≤ n then [jump (.routine .memoryFault)]
  else
    loadConstant .r1 (cellBytes n) ++
      [.operation (.arithmetic op .always .r4 .r4 (.register .r1)),
        .operation (.arithmetic .subtract .always .r1 .fp (.immediate 4)),
        .operation (.compare .r4 (.register .r1)),
        .operation (.branch .higher (.routine .memoryFault))] ++
      loadConstant .r1 (cellBytes size) ++
      [.operation (.arithmetic .subtract .always .r1 .fp (.register .r1)),
        .operation (.compare .r4 (.register .r1)),
        .operation (.branch .lower (.routine .memoryFault))]

/-- Combines `r0` and `r1` into `r2`. -/
def combine : Update → Operation
  | .add => .arithmetic .add .always .r2 .r0 (.register .r1)
  | .subtract => .arithmetic .subtract .always .r2 .r0 (.register .r1)
  | .multiply => .multiply .r2 .r0 .r1

/-- The condition under which a comparison holds. -/
def condition : Relation → Condition
  | .greater => .greater
  | .less => .less
  | .equal => .equal
  | .unequal => .unequal

/-- The code of an instruction on a line. -/
def lowerInstruction (size line : Nat) : Instruction → List Line
  | .moveBy d n => moveCursor size d n
  | .moveTo a =>
    loadConstant .r1 (cellOffset a) ++
      [.operation (.arithmetic .subtract .always .r4 .fp (.register .r1))]
  | .copyTo a =>
    .operation (.load .r0 (.offset .r4 0)) :: loadConstant .r1 (cellOffset a) ++
      [.operation (.store .always .r0 (.below .fp .r1))]
  | .jumpBy .forward n => [jump (.node (line + n))]
  | .jumpBy .backward n => [jump (.node (line - n))]
  | .jumpTo target => [jump (.node target)]
  | .print =>
    [.operation (.load .r0 (.offset .r4 0)), .operation (.call (.routine .print))]
  | .function name => [.label (.function name)]
  | .close => []
  | .call name => [jump (.function name)]
  | .exit => [jump (.routine .exit)]
  | .compare r a b =>
    loadCell .r0 .r2 a ++ loadCell .r1 .r3 b ++
      [.operation (.compare .r0 (.register .r1)),
        .operation (.branch (condition r) (.node (line + 1))),
        jump (.node (line + 2))]
  | .set v =>
    loadConstant .r0 v.toUInt32 ++ [.operation (.store .always .r0 (.offset .r4 0))]
  | .update u v =>
    .operation (.load .r0 (.offset .r4 0)) :: loadConstant .r1 v.toUInt32 ++
      [.operation (combine u), .operation (.store .always .r2 (.offset .r4 0))]

/-- The code of a statement, under the label of its line. -/
def lowerStatement (size : Nat) (verbose : Bool) (s : Statement) : List Line :=
  .label (.node s.line) :: remark verbose s!"{s.line}: {s.text}" ++
    lowerInstruction size s.line s.instruction

/-! ### Around the statements -/

/-- What every program starts with. -/
def header (length size : Nat) : List Line :=
  [.remark s!"HRA program: {length} line(s), {size} memory cell(s)",
    .directive .unifiedSyntax, .directive .architecture, .directive .code]

/-- Stores one input into its cell. -/
def storeInput (value : Cell) (address : Nat) : List Line :=
  loadConstant .r0 value.toUInt32 ++ loadConstant .r1 (cellOffset address) ++
    [.operation (.store .always .r0 (.below .fp .r1))]

/-- Sets up the frame: reserves it, clears it, stores the inputs, and points the cursor at the first
cell. Control falls through into what follows. -/
def setup (options : Options) (size : Nat) (inputs : List Cell) : List Line :=
  [.directive (.visible (.entry options.entry)), .label (.entry options.entry)] ++
    remark options.verbose s!"reserve and clear {size} memory cell(s)" ++
    .operation (.move .always .fp (.register .sp)) ::
    loadConstant .r1 (cellBytes size) ++
    [.operation (.arithmetic .subtract .always .sp .sp (.register .r1)),
      .operation (.move .always .r0 (.immediate 0)),
      .operation (.move .always .r2 (.register .sp)),
      .label (.routine .clear),
      .operation (.compare .r2 (.register .fp)),
      .operation (.store .lower .r0 (.postIndexed .r2 4)),
      .operation (.branch .lower (.routine .clear))] ++
    remark (options.verbose && !inputs.isEmpty) s!"store {inputs.length} input value(s)" ++
    inputs.zipIdx.flatMap (fun (value, address) ↦ storeInput value address) ++
    [.operation (.arithmetic .subtract .always .r4 .fp (.immediate 4))]

/-- The setup before the place where the program starts; nothing before any other place. Code above
branches around it, so that falling off the line above does not set up again. -/
def arrival (layout : Layout) (options : Options) (inputs : List Cell) (place : Nat) :
    List Line :=
  if place = layout.start then
    (if 0 < place then [jump (.node (place + 1))] else []) ++ setup options layout.size inputs
  else []

/-- Prints `r0` as a signed number in decimal, and keeps `r4` to `r7`. Digits are stored backwards
into a buffer on the stack; a tenth is taken by multiplying with its reciprocal, `2 ^ 35 / 10`
rounded up. -/
def printRoutine (verbose : Bool) : List Line :=
  remark verbose "print r0 in decimal to stdout" ++
    [.label (.routine .print),
      .operation (.push .r4 .r7 .lr),
      .operation (.arithmetic .subtract .always .sp .sp (.immediate 16)),
      .operation (.arithmetic .add .always .r5 .sp (.immediate 16)),
      .operation (.move .always .r6 (.register .r5)),
      .operation (.move .always .r7 (.register .r0)),
      .operation (.compare .r0 (.immediate 0)),
      .operation (.arithmetic .reverseSubtract .less .r0 .r0 (.immediate 0)),
      .label (.routine .printDigit)] ++
    loadConstant .r3 0xCCCCCCCD ++
    [.operation (.multiplyLong .r2 .r3 .r0 .r3),
      .operation (.shiftRight .r3 .r3 3),
      .operation (.arithmetic .add .always .r2 .r3 (.shifted .r3 2)),
      .operation (.arithmetic .subtract .always .r2 .r0 (.shifted .r2 1)),
      .operation (.arithmetic .add .always .r2 .r2 (.immediate 48)),
      .operation (.storeByte .always .r2 (.preIndexed .r6 (-1))),
      .operation (.moveFlags .r0 .r3),
      .operation (.branch .unequal (.routine .printDigit)),
      .operation (.compare .r7 (.immediate 0)),
      .operation (.move .less .r2 (.immediate 45)),
      .operation (.storeByte .less .r2 (.preIndexed .r6 (-1))),
      .operation (.move .always .r0 (.immediate 1)),
      .operation (.move .always .r1 (.register .r6)),
      .operation (.arithmetic .subtract .always .r2 .r5 (.register .r6)),
      .operation (.move .always .r7 (.immediate 4)),
      .operation .service,
      .operation (.arithmetic .add .always .sp .sp (.immediate 16)),
      .operation (.pop .r4 .r7 .pc)]

/-- Leaves the program: with a fault status, or with the first cell. -/
def exitRoutines (verbose : Bool) : List Line :=
  remark verbose "faults and exit; the status of a normal exit is memory cell 0" ++
    [.label (.routine .memoryFault),
      .operation (.move .always .r0 (.immediate memoryFaultStatus)),
      jump (.routine .terminate),
      .label (.routine .instructionFault),
      .operation (.move .always .r0 (.immediate instructionFaultStatus)),
      jump (.routine .terminate),
      .label (.routine .exit),
      .operation (.load .r0 (.offset .fp (-4))),
      .label (.routine .terminate),
      .operation (.move .always .sp (.register .fp)),
      .operation (.move .always .r7 (.immediate 1)),
      .operation .service]

/-- The code of a whole program. -/
def lower (p : Program) (layout : Layout) (options : Options) (inputs : List Cell) : List Line :=
  header p.length layout.size ++
    p.statements.zipIdx.flatMap (fun (s, place) ↦
      arrival layout options inputs place ++ lowerStatement layout.size options.verbose s) ++
    arrival layout options inputs p.length ++
    [.label (.node (p.length + 1)), jump (.routine .instructionFault)] ++
    printRoutine options.verbose ++ exitRoutines options.verbose

/-- Lowers a program, with inputs in the first cells, or says why not. The entry must be an
identifier, the frame must fit 32-bit addresses, the inputs must fit the frame, and no statement may
be certain to fail. -/
def generate (p : Program) (layout : Layout) (options : Options) (inputs : List Cell) :
    Except Error (List Line) := do
  if !Text.isIdentifier options.entry then throw (.invalidEntryName options.entry)
  if layout.size = 0 ∨ UInt32.size ≤ layout.size * wordBytes then throw .invalidMemorySize
  if layout.size < inputs.length then throw (.inputTooLarge layout.size inputs.length)
  let length := p.length
  p.statements.forM fun s ↦ s.check layout length
  return lower p layout options inputs

end Arm

end CursorMachine
