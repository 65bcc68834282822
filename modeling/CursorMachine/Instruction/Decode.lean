import CursorMachine.Error
import CursorMachine.Instruction
import CursorMachine.Text.Identifier
import CursorMachine.Text.Numeral

/-!
# Reading an instruction

An instruction is read from its keyword and the parameters written after it. The number of
parameters is judged before any of them is read; then they are read from left to right, and the
first one outside its range is blamed.

There are five ranges for a parameter, each with its reader:

* `address`: a number from zero on;
* `value`: a number that a cell can hold;
* `valueAmount`: a `value` of at least one;
* `moveAmount`: a number of at least one;
* `functionName`: an identifier.

A number below one is `invalidAmount` where an amount is wanted. For `valueAmount` the range of a
cell is judged first, so a number below every cell value is `invalidNumber` there.
-/

namespace CursorMachine

/-- How many parameters a keyword takes. -/
def Keyword.arity : Keyword → Arity
  | .moveBy _ | .jumpBy _ => .oneOf [0, 1]
  | .moveTo | .copyTo | .jumpTo | .function | .call | .set | .update _ => .exactly 1
  | .compare _ => .exactly 2
  | .print | .close | .exit => .none

namespace Instruction

/-! ### Readers of one parameter -/

/-- Reads a number literal. -/
def number (line : Nat) (text : String) : Except Error Int :=
  match Text.Numeral.read? text with
  | some n => .ok n
  | none => .error (.invalidNumber line text)

/-- Reads an address or a line: a number from zero on. -/
def address (line : Nat) (text : String) : Except Error Nat := do
  let n ← number line text
  if 0 ≤ n then .ok n.toNat else .error (.invalidNumber line text)

/-- Reads a value that a cell can hold. -/
def value (line : Nat) (text : String) : Except Error Cell := do
  let n ← number line text
  if Int32.minValue.toInt ≤ n ∧ n ≤ Int32.maxValue.toInt then .ok (Int32.ofInt n)
  else .error (.invalidNumber line text)

/-- Reads the amount of an update: a cell value of at least one. -/
def valueAmount (line : Nat) (text : String) : Except Error Cell := do
  let v ← value line text
  if 1 ≤ v.toInt then .ok v else .error (.invalidAmount line v.toInt)

/-- Reads the amount of a move: a number of at least one. -/
def moveAmount (line : Nat) (text : String) : Except Error Nat := do
  let n ← number line text
  if 1 ≤ n then .ok n.toNat else .error (.invalidAmount line n)

/-- Reads the name of a function. -/
def functionName (line : Nat) (text : String) : Except Error String :=
  if Text.isIdentifier text then .ok text else .error (.invalidFunctionName line text)

/-! ### Reading a whole instruction -/

/-- Reads the instruction that a keyword on a line makes of its parameters. An omitted amount of a
move is one. -/
def decode (keyword : Keyword) (line : Nat) (params : List String) : Except Error Instruction :=
  match keyword, params with
  | .moveBy d, [] => .ok (.moveBy d 1)
  | .moveBy d, [n] => return .moveBy d (← moveAmount line n)
  | .moveTo, [a] => return .moveTo (← address line a)
  | .copyTo, [a] => return .copyTo (← address line a)
  | .jumpBy d, [] => .ok (.jumpBy d 1)
  | .jumpBy d, [n] => return .jumpBy d (← moveAmount line n)
  | .jumpTo, [target] => return .jumpTo (← address line target)
  | .print, [] => .ok .print
  | .function, [name] => return .function (← functionName line name)
  | .close, [] => .ok .close
  | .call, [name] => return .call (← functionName line name)
  | .exit, [] => .ok .exit
  | .compare r, [a, b] => return .compare r (← address line a) (← address line b)
  | .set, [v] => return .set (← value line v)
  | .update u, [v] => return .update u (← valueAmount line v)
  | _, _ => .error (.parameterCount line keyword.arity params)

end Instruction

end CursorMachine
