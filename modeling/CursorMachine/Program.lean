import CursorMachine.Statement

/-!
# Programs

A program is a list of statements together with its function *regions*, each from the line that
opens a function to the line that closes it.

A text becomes a program in three passes, and the first error of the first failing pass is reported:

1. every row becomes a statement (`readStatements`; an empty row stands for nothing);
2. every opening line gets its region (`regions`). For each, in order: the name is new, no other
   function opens before the close, there is a close, and something stands between the two;
3. some statement is `exit`.

A close that belongs to no function is a statement like any other. Regions are found by position in
the list but are recorded, and compared, by line number.
-/

namespace CursorMachine

/-- The extent of a function, from the line that opens it to the line that closes it. -/
structure Region where
  name : String
  first : Nat
  last : Nat
  deriving DecidableEq, Repr

/-- A program, with its regions in the order of the text. -/
structure Program where
  statements : List Statement
  regions : List Region
  deriving DecidableEq, Repr

namespace Region

/-! ### Finding regions -/

/-- How the body of a function ends. -/
inductive Ending where
  /-- At a closing line. -/
  | closed (line : Nat)
  /-- At a line that opens another function. -/
  | reopened (line : Nat) (name : String)
  /-- Not at all. -/
  | missing
  deriving DecidableEq, Repr

/-- How the body ends that goes on with these statements. -/
def ending : List Statement → Ending
  | [] => .missing
  | s :: rest =>
    match s.instruction with
    | .close => .closed s.line
    | .function inner => .reopened s.line inner
    | _ => ending rest

/-- The region of a function that opens on a line, among functions with the names taken, when these
statements follow. -/
def ofOpening (taken : List String) (line : Nat) (name : String) (rest : List Statement) :
    Except Error Region :=
  if taken.contains name then .error (.duplicateFunction line name)
  else
    match ending rest with
    | .reopened innerLine inner => .error (.nestedFunction line name innerLine inner)
    | .missing => .error (.unterminatedFunction line name)
    | .closed last =>
      if last = line + 1 then .error (.emptyFunction line name) else .ok ⟨name, line, last⟩

/-- The regions of the functions that statements open, in order, after functions with the names
taken. -/
def collect (taken : List String) : List Statement → Except Error (List Region)
  | [] => .ok []
  | s :: rest =>
    match s.instruction with
    | .function name => do
      let region ← ofOpening taken s.line name rest
      return region :: (← collect (name :: taken) rest)
    | _ => collect taken rest

end Region

namespace Program

/-- Reads each row as a statement. Empty rows stand for nothing. -/
def readStatements : List (List Token) → Except Error (List Statement)
  | [] => .ok []
  | [] :: rows => readStatements rows
  | (head :: params) :: rows => do
    let s ← Statement.ofTokens head params
    return s :: (← readStatements rows)

/-- The program that statements make up. -/
def ofStatements (statements : List Statement) : Except Error Program := do
  let regions ← Region.collect [] statements
  if statements.any (·.instruction == .exit) then .ok ⟨statements, regions⟩
  else .error .missingExit

/-- Reads a program from rows of tokens. -/
def ofRows (rows : List (List Token)) : Except Error Program := do
  ofStatements (← readStatements rows)

/-- Reads a program from a text. -/
def ofText (text : String) : Except Error Program :=
  ofRows (Token.rows text)

/-! ### Looking into a program -/

/-- The number of statements. -/
def length (p : Program) : Nat := p.statements.length

/-- The statement at a place, counted from zero. -/
def statement? (p : Program) (i : Nat) : Option Statement := p.statements[i]?

/-- The region of a function. -/
def region? (p : Program) (name : String) : Option Region :=
  p.regions.find? (·.name == name)

/-- The place of the first statement to run: the one after the last region, or the first of all.
A line number, counted from one, is also the place after that line, counted from zero. -/
def entry (p : Program) : Nat :=
  match p.regions.getLast? with
  | some region => region.last
  | none => 0

end Program

end CursorMachine
