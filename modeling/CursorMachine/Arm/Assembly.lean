/-!
# Assembly text

The part of 32-bit ARM assembly, in the unified syntax, that programs are lowered to. Lowering
produces *lines* of this type; `Line.text` is the only place that knows how a line is spelled. A
line is a label, a directive, an operation, or a remark for the reader, which assembles to nothing.

The types hold no more than lowering needs. Only the operations that are ever made conditional have
a condition, and a list of pushed registers is always a range and one register more.
-/

namespace CursorMachine.Arm

/-! ### Operands -/

/-- The registers in use. -/
inductive Register where
  | r0 | r1 | r2 | r3 | r4 | r5 | r6 | r7
  /-- The frame base. -/
  | fp
  /-- The stack pointer. -/
  | sp
  /-- The return address. -/
  | lr
  /-- The address of the operation being run. -/
  | pc
  deriving DecidableEq, Repr

/-- The name of a register. -/
def Register.text : Register → String
  | .r0 => "r0"
  | .r1 => "r1"
  | .r2 => "r2"
  | .r3 => "r3"
  | .r4 => "r4"
  | .r5 => "r5"
  | .r6 => "r6"
  | .r7 => "r7"
  | .fp => "fp"
  | .sp => "sp"
  | .lr => "lr"
  | .pc => "pc"

/-- When an operation takes effect, judged by the latest comparison. -/
inductive Condition where
  | always
  | equal
  | unequal
  /-- Less, as signed numbers. -/
  | less
  /-- Greater, as signed numbers. -/
  | greater
  /-- Lower, as unsigned numbers. -/
  | lower
  /-- Higher, as unsigned numbers. -/
  | higher
  deriving DecidableEq, Repr

/-- The letters that a condition adds to a mnemonic. -/
def Condition.suffix : Condition → String
  | .always => ""
  | .equal => "eq"
  | .unequal => "ne"
  | .less => "lt"
  | .greater => "gt"
  | .lower => "lo"
  | .higher => "hi"

/-- The last operand of an arithmetic operation. -/
inductive Operand where
  | immediate (n : UInt32)
  | register (r : Register)
  /-- A register shifted left. -/
  | shifted (r : Register) (bits : Nat)
  deriving DecidableEq, Repr

/-- An operand as written. -/
def Operand.text : Operand → String
  | .immediate n => s!"#{n.toNat}"
  | .register r => r.text
  | .shifted r bits => s!"{r.text}, lsl #{bits}"

/-- How a load or a store finds its place in memory. -/
inductive Address where
  /-- A constant distance from a register. -/
  | offset (base : Register) (distance : Int)
  /-- As far below a register as another register says. -/
  | below (base distance : Register)
  /-- Move the register by a constant, then use it. -/
  | preIndexed (base : Register) (distance : Int)
  /-- Use the register, then move it by a constant. -/
  | postIndexed (base : Register) (distance : Int)
  deriving DecidableEq, Repr

/-- An address as written. No distance is written for distance zero. -/
def Address.text : Address → String
  | .offset base distance =>
    if distance = 0 then s!"[{base.text}]" else s!"[{base.text}, #{distance}]"
  | .below base distance => s!"[{base.text}, -{distance.text}]"
  | .preIndexed base distance => s!"[{base.text}, #{distance}]!"
  | .postIndexed base distance => s!"[{base.text}], #{distance}"

/-! ### Labels -/

/-- The places that every lowered program has. -/
inductive Routine where
  /-- The loop that clears the frame. -/
  | clear
  /-- The cursor has left memory. -/
  | memoryFault
  /-- The program has run past its last line. -/
  | instructionFault
  /-- The program stops. -/
  | exit
  /-- Leave, with the status in the first register. -/
  | terminate
  /-- Print the first register in decimal. -/
  | print
  /-- The loop over decimal digits. -/
  | printDigit
  deriving DecidableEq, Repr

/-- The label text of a routine. -/
def Routine.text : Routine → String
  | .clear => "hra_clear"
  | .memoryFault => "hra_memory_fault"
  | .instructionFault => "hra_instruction_fault"
  | .exit => "hra_exit"
  | .terminate => "hra_terminate"
  | .print => "hra_print"
  | .printDigit => "hra_print_digit"

/-- A place in the lowered program. -/
inductive Label where
  /-- Where to start, under a name of the user's choice. -/
  | entry (name : String)
  /-- A line of the program. -/
  | node (line : Nat)
  /-- The body of a function. -/
  | function (name : String)
  | routine (r : Routine)
  deriving DecidableEq, Repr

/-- A label as written. -/
def Label.text : Label → String
  | .entry name => name
  | .node line => s!"node_{line}"
  | .function name => s!"function_{name}"
  | .routine r => r.text

/-! ### Operations and lines -/

/-- Arithmetic on a register and an operand. -/
inductive Arithmetic where
  | add
  | subtract
  /-- Subtract the register from the operand. -/
  | reverseSubtract
  deriving DecidableEq, Repr

/-- The mnemonic of an arithmetic operation. -/
def Arithmetic.mnemonic : Arithmetic → String
  | .add => "add"
  | .subtract => "sub"
  | .reverseSubtract => "rsb"

/-- One operation. The register that receives the result comes first. -/
inductive Operation where
  | move (c : Condition) (rd : Register) (source : Operand)
  /-- Move and set the flags by what is moved. -/
  | moveFlags (rd rm : Register)
  /-- Put a constant into the low half and clear the high half. -/
  | moveLow (rd : Register) (half : UInt32)
  /-- Put a constant into the high half and keep the low half. -/
  | moveHigh (rd : Register) (half : UInt32)
  | arithmetic (op : Arithmetic) (c : Condition) (rd rn : Register) (source : Operand)
  /-- Multiply, keeping the low 32 bits. -/
  | multiply (rd rn rm : Register)
  /-- Multiply as unsigned numbers, into a low and a high half. -/
  | multiplyLong (low high rn rm : Register)
  /-- Shift right, filling with zeros. -/
  | shiftRight (rd rm : Register) (bits : Nat)
  | compare (rn : Register) (source : Operand)
  | load (rd : Register) (place : Address)
  | store (c : Condition) (rs : Register) (place : Address)
  /-- Store the low eight bits. -/
  | storeByte (c : Condition) (rs : Register) (place : Address)
  | branch (c : Condition) (target : Label)
  /-- Branch, leaving a return address. -/
  | call (target : Label)
  /-- Push a range of registers and one more. -/
  | push (first last more : Register)
  /-- Pop a range of registers and one more. -/
  | pop (first last more : Register)
  /-- Ask the system for a service. -/
  | service
  deriving DecidableEq, Repr

namespace Operation

/-- The mnemonic of an operation, with its condition. -/
def mnemonic : Operation → String
  | .move c .. => "mov" ++ c.suffix
  | .moveFlags .. => "movs"
  | .moveLow .. => "movw"
  | .moveHigh .. => "movt"
  | .arithmetic op c .. => op.mnemonic ++ c.suffix
  | .multiply .. => "mul"
  | .multiplyLong .. => "umull"
  | .shiftRight .. => "lsr"
  | .compare .. => "cmp"
  | .load .. => "ldr"
  | .store c .. => "str" ++ c.suffix
  | .storeByte c .. => "strb" ++ c.suffix
  | .branch c _ => "b" ++ c.suffix
  | .call _ => "bl"
  | .push .. => "push"
  | .pop .. => "pop"
  | .service => "svc"

/-- A list of registers as written. -/
def registerList (first last more : Register) : String :=
  "\x7b" ++ s!"{first.text}-{last.text}, {more.text}" ++ "\x7d"

/-- The operands of an operation as written. -/
def operands : Operation → String
  | .move _ rd source => s!"{rd.text}, {source.text}"
  | .moveFlags rd rm => s!"{rd.text}, {rm.text}"
  | .moveLow rd half | .moveHigh rd half => s!"{rd.text}, #{half.toNat}"
  | .arithmetic _ _ rd rn source => s!"{rd.text}, {rn.text}, {source.text}"
  | .multiply rd rn rm => s!"{rd.text}, {rn.text}, {rm.text}"
  | .multiplyLong low high rn rm => s!"{low.text}, {high.text}, {rn.text}, {rm.text}"
  | .shiftRight rd rm bits => s!"{rd.text}, {rm.text}, #{bits}"
  | .compare rn source => s!"{rn.text}, {source.text}"
  | .load rd place => s!"{rd.text}, {place.text}"
  | .store _ rs place | .storeByte _ rs place => s!"{rs.text}, {place.text}"
  | .branch _ target | .call target => target.text
  | .push first last more | .pop first last more => registerList first last more
  | .service => "#0"

end Operation

/-- An instruction to the assembler. -/
inductive Directive where
  /-- Use the unified syntax. -/
  | unifiedSyntax
  /-- Assemble for the seventh architecture. -/
  | architecture
  /-- What follows is code. -/
  | code
  /-- Make a label visible to the linker. -/
  | visible (target : Label)
  deriving DecidableEq, Repr

/-- A directive as written. -/
def Directive.text : Directive → String
  | .unifiedSyntax => ".syntax unified"
  | .architecture => ".arch armv7-a"
  | .code => ".text"
  | .visible target => s!".global {target.text}"

/-- One line of assembly. -/
inductive Line where
  | remark (text : String)
  | label (l : Label)
  | directive (d : Directive)
  | operation (o : Operation)
  deriving DecidableEq, Repr

/-- What starts a remark. -/
def remarkMark : String := "@"

/-- A line as written, without its end. Directives and operations are indented. -/
def Line.text : Line → String
  | .remark text => remarkMark ++ " " ++ text
  | .label l => l.text ++ ":"
  | .directive d => "    " ++ d.text
  | .operation o => "    " ++ o.mnemonic ++ " " ++ o.operands

/-- Lines as written. Every line has its end, also the last one. -/
def text (lines : List Line) : String :=
  String.join (lines.map fun l ↦ l.text ++ "\n")

end CursorMachine.Arm
