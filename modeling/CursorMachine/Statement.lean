import CursorMachine.Instruction.Decode
import CursorMachine.Token

/-!
# Statements

A statement is one line of a program: its number, its instruction, and the parameters as they were
written. The number comes with the tokens and is what jumps refer to.
-/

namespace CursorMachine

/-- One line of a program. -/
structure Statement where
  line : Nat
  params : List String
  instruction : Instruction
  deriving DecidableEq, Repr

namespace Statement

/-- Reads a statement from the token that starts a row and the tokens after it. -/
def ofTokens (head : Token) (params : List Token) : Except Error Statement :=
  match head.kind.keyword? with
  | none => .error (.unknownInstruction head.line head.content)
  | some keyword => do
    let contents := params.map Token.content
    let instruction ← Instruction.decode keyword head.line contents
    return ⟨head.line, contents, instruction⟩

/-- The place of the statement when it stands where its line number says: lines count from one and
places from zero. -/
def index (s : Statement) : Nat := s.line - 1

/-- The statement as a program writes it, with every operand. -/
def text (s : Statement) : String := s.instruction.text

end Statement

end CursorMachine
