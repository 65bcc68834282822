import CursorMachine.Arity

/-!
# Errors

What can be wrong with a program text, with the machine it is to run on, with a run, or with a
request for assembly. An error is its cause, with the line it is blamed on; `Error.message` words
it. The order here is the order of the stages that raise them, and `Error.isSyntax` marks the first
stage, in which nothing has run or been generated yet.

Lines are logical lines, numbered from one. An address is an integer because a cursor may be asked
to leave memory at either end.
-/

namespace CursorMachine

/-- The cause of a failure. -/
inductive Error where
  /-- The line starts with no keyword. -/
  | unknownInstruction (line : Nat) (word : String)
  /-- The instruction does not take this number of parameters. -/
  | parameterCount (line : Nat) (expected : Arity) (received : List String)
  /-- The parameter is no number, or a number outside the range that its place allows. -/
  | invalidNumber (line : Nat) (text : String)
  /-- The amount is below one. -/
  | invalidAmount (line : Nat) (amount : Int)
  /-- The name is no identifier. -/
  | invalidFunctionName (line : Nat) (name : String)
  /-- An earlier function has the name. -/
  | duplicateFunction (line : Nat) (name : String)
  /-- The function is never closed. -/
  | unterminatedFunction (line : Nat) (name : String)
  /-- The function is closed on the line after the one that opens it. -/
  | emptyFunction (line : Nat) (name : String)
  /-- Another function is opened before this one is closed. -/
  | nestedFunction (line : Nat) (name : String) (innerLine : Nat) (inner : String)
  /-- No line stops the program. -/
  | missingExit
  /-- There is no cell at all, or there are more than can be addressed. -/
  | invalidMemorySize
  /-- There are more inputs than cells. -/
  | inputTooLarge (size inputs : Nat)
  /-- The address lies outside memory. -/
  | memoryOutOfRange (line : Nat) (address : Int) (size : Nat)
  /-- The line to continue at lies outside the program. -/
  | instructionOutOfRange (target : Int) (last : Nat)
  /-- No function has the name. -/
  | functionNotFound (line : Nat) (name : String)
  /-- The entry label is no identifier. -/
  | invalidEntryName (name : String)
  deriving DecidableEq, Repr

namespace Error

/-- Parameters as a message lists them. -/
def listParameters : List String → String
  | [] => "None"
  | ps => ", ".intercalate ps

/-- The wording of an error. -/
def message : Error → String
  | .unknownInstruction line word => s!"at line {line} '{word}' is not an instruction"
  | .parameterCount line expected received =>
    s!"at line {line} expected {expected.text} parameter(s) but received {received.length} -> " ++
      listParameters received
  | .invalidNumber line text => s!"at line {line} '{text}' is not a valid number"
  | .invalidAmount line amount => s!"at line {line} given amount ({amount}) must at least be 1"
  | .invalidFunctionName line name => s!"at line {line} '{name}' is not a valid function name"
  | .duplicateFunction line name =>
    s!"function name of {name} defined at line {line} is already in use"
  | .unterminatedFunction line name => s!"function {name} defined at line {line} has no 'close'"
  | .emptyFunction line name => s!"function {name} defined at line {line} has an empty body"
  | .nestedFunction line name innerLine inner =>
    s!"function {inner} at line {innerLine} is defined inside function {name} at line {line}"
  | .missingExit => "no 'exit' found in program"
  | .invalidMemorySize => "memory size must be at least 1"
  | .inputTooLarge size inputs =>
    s!"requested memory size ({size}) is smaller than the given input ({inputs} values)"
  | .memoryOutOfRange line address size =>
    s!"at line {line} tried accessing memory address {address} outside 0..{size}"
  | .instructionOutOfRange target last =>
    s!"instruction pointer is outside scope, max available: {last}, pointer: {target}"
  | .functionNotFound line name => s!"at line {line} function {name} was not found"
  | .invalidEntryName name => s!"'{name}' is not a valid entry label"

/-- The error is found in the text of a program, before anything runs or is generated. -/
def isSyntax : Error → Bool
  | .unknownInstruction .. | .parameterCount .. | .invalidNumber .. | .invalidAmount ..
  | .invalidFunctionName .. | .duplicateFunction .. | .unterminatedFunction ..
  | .emptyFunction .. | .nestedFunction .. | .missingExit => true
  | .invalidMemorySize | .inputTooLarge .. | .memoryOutOfRange .. | .instructionOutOfRange ..
  | .functionNotFound .. | .invalidEntryName .. => false

end Error

end CursorMachine
