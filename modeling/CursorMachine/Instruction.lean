import CursorMachine.Keyword

/-!
# Instructions

An instruction is a keyword with its operands. Amounts of a move are positive, addresses and lines
are natural numbers, cell values are 32-bit words. The families of `Keyword` recur here.

`Instruction.text` writes an instruction the way a program does, with every number in decimal and
an omitted amount written out.
-/

namespace CursorMachine

/-- What a cell holds: a signed 32-bit word, with arithmetic that wraps around. -/
abbrev Cell := Int32

/-- The relation holds between two cells. -/
def Relation.holds (a b : Cell) : Relation → Bool
  | .greater => b < a
  | .less => a < b
  | .equal => a == b
  | .unequal => a != b

/-- The cell after an update by an amount. -/
def Update.apply (a v : Cell) : Update → Cell
  | .add => a + v
  | .subtract => a - v
  | .multiply => a * v

/-- One instruction of a program. -/
inductive Instruction where
  /-- Move the cell cursor by `n` cells. -/
  | moveBy (d : Direction) (n : Nat)
  /-- Put the cell cursor on address `a`. -/
  | moveTo (a : Nat)
  /-- Copy the cell under the cursor to address `a`. -/
  | copyTo (a : Nat)
  /-- Continue `n` lines further on or further back. -/
  | jumpBy (d : Direction) (n : Nat)
  /-- Continue at a line. -/
  | jumpTo (line : Nat)
  /-- Print the cell under the cursor. -/
  | print
  /-- Open the body of a function. -/
  | function (name : String)
  /-- Close the body of a function. -/
  | close
  /-- Continue in the body of a function. Nothing remembers where the call came from. -/
  | call (name : String)
  /-- Stop. -/
  | exit
  /-- Skip the next line unless cells `a` and `b` are related. -/
  | compare (r : Relation) (a b : Nat)
  /-- Put `v` into the cell under the cursor. -/
  | set (v : Cell)
  /-- Combine the cell under the cursor with `v`. -/
  | update (u : Update) (v : Cell)
  deriving DecidableEq, Repr

namespace Instruction

/-- The keyword of an instruction. -/
def keyword : Instruction → Keyword
  | .moveBy d _ => .moveBy d
  | .moveTo _ => .moveTo
  | .copyTo _ => .copyTo
  | .jumpBy d _ => .jumpBy d
  | .jumpTo _ => .jumpTo
  | .print => .print
  | .function _ => .function
  | .close => .close
  | .call _ => .call
  | .exit => .exit
  | .compare r _ _ => .compare r
  | .set _ => .set
  | .update u _ => .update u

/-- The operands of an instruction as a program writes them. -/
def operands : Instruction → List String
  | .moveBy _ n | .jumpBy _ n => [toString n]
  | .moveTo a | .copyTo a => [toString a]
  | .jumpTo line => [toString line]
  | .function name | .call name => [name]
  | .compare _ a b => [toString a, toString b]
  | .set v | .update _ v => [toString v.toInt]
  | .print | .close | .exit => []

/-- The instruction as a program writes it, with every operand. -/
def text (i : Instruction) : String :=
  " ".intercalate (i.keyword.phrase :: i.operands)

/-- The verdict of a comparison on two cells; `none` for every other instruction. -/
def compare? (i : Instruction) (a b : Cell) : Option Bool :=
  match i with
  | .compare r _ _ => some (r.holds a b)
  | _ => none

end Instruction

end CursorMachine
