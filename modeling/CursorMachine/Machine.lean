import CursorMachine.Machine.Bounds
import CursorMachine.Program

/-!
# Machines

A machine has a fixed number of cells, a cursor on one of them, and a position in a program. The
number of cells is part of the type, and the cursor is an index below it, so no operation can change
the one or lead the other astray.

`Machine.attempt` carries out one statement in two parts. First the *effect*: on a cell, on the
cursor, on what is printed, or none; it also says where to continue, counted from zero. Then the
*landing*: the place to continue must exist. When the effect is refused, nothing changes. When the
landing is refused, the effect stays and the position does not move; `Attempt` therefore carries a
machine also when it carries an error.
-/

namespace CursorMachine

/-- How to set up a machine. -/
structure Setup where
  /-- The number of cells. -/
  cells : Nat := 32
  /-- What the first cells hold; the others hold zero. -/
  inputs : List Cell := []
  deriving DecidableEq, Repr

/-- A machine with a fixed number of cells. -/
structure Machine (size : Nat) where
  memory : Vector Cell size
  /-- The address of the current cell. -/
  cursor : Fin size
  /-- The place of the statement to run next, counted from zero. -/
  position : Nat
  /-- The functions that can be called, each with the line that opens it. -/
  functions : List (String × Nat)
  /-- Every value printed, oldest first. -/
  printed : Array Cell
  deriving DecidableEq

/-- What carrying out a statement leaves behind. -/
structure Attempt (size : Nat) where
  machine : Machine size
  error? : Option Error
  deriving DecidableEq

namespace Machine

variable {size : Nat}

/-! ### Preparation -/

/-- Cells with values stored from an address on. Values beyond the last cell are dropped. -/
def store {size : Nat} (memory : Vector Cell size) (address : Nat) : List Cell → Vector Cell size
  | [] => memory
  | v :: vs => store (memory.setIfInBounds address v) (address + 1) vs

/-- The first cells hold the inputs and the others zero. -/
def load (size : Nat) (inputs : List Cell) : Vector Cell size :=
  store (Vector.replicate size 0) 0 inputs

theorem getElem_store {size : Nat} (memory : Vector Cell size) (address : Nat) (vs : List Cell)
    (i : Nat) (h : i < size) :
    (store memory address vs)[i] =
      if address ≤ i then vs.getD (i - address) memory[i] else memory[i] := by
  induction vs generalizing memory address with
  | nil => simp [store]
  | cons v vs ih =>
    rw [store, ih, Vector.getElem_setIfInBounds]
    rcases Nat.lt_trichotomy address i with hlt | rfl | hgt
    · have hi : i - address = (i - (address + 1)) + 1 := by omega
      rw [if_pos (Nat.succ_le_of_lt hlt), if_pos (Nat.le_of_lt hlt), if_neg (Nat.ne_of_lt hlt), hi,
        List.getD_cons_succ]
    · rw [if_neg (Nat.not_succ_le_self address), if_pos rfl, if_pos (Nat.le_refl _), Nat.sub_self,
        List.getD_cons_zero]
    · rw [if_neg (show ¬address + 1 ≤ i by omega), if_neg (show ¬address ≤ i by omega),
        if_neg (Nat.ne_of_gt hgt)]

/-- Every cell holds the input of its address, or zero. -/
theorem getElem_load (size : Nat) (inputs : List Cell) (i : Nat) (h : i < size) :
    (load size inputs)[i] = inputs.getD i 0 := by
  simp [load, getElem_store]

/-- A machine without a program. There must be a cell, and a cell for every input. -/
def blank (setup : Setup) : Except Error (Machine setup.cells) :=
  if h : setup.cells = 0 then .error .invalidMemorySize
  else if setup.cells < setup.inputs.length then
    .error (.inputTooLarge setup.cells setup.inputs.length)
  else
    .ok {
      memory := load setup.cells setup.inputs
      cursor := ⟨0, Nat.pos_of_ne_zero h⟩
      position := 0
      functions := []
      printed := #[] }

/-- The machine that a program starts on: its functions can be called, and its entry is next. -/
def prepare (p : Program) (setup : Setup) : Except Error (Machine setup.cells) := do
  let m ← blank setup
  return { m with
    functions := p.regions.map fun r ↦ (r.name, r.first)
    position := p.entry }

/-! ### Looking into a machine -/

/-- The cell under the cursor. -/
def current (m : Machine size) : Cell := m.memory[m.cursor]

/-- The line that opens a function. -/
def opening? (m : Machine size) (name : String) : Option Nat := m.functions.lookup name

/-- The machine on one line: cells, cursor, position, and the names of the functions. -/
def text (m : Machine size) : String :=
  let cells := ", ".intercalate (m.memory.toList.map fun v ↦ toString v.toInt)
  let names := ", ".intercalate (m.functions.map Prod.fst)
  s!"memory=[{cells}] memory_pointer={m.cursor.val} instruction_pointer={m.position} " ++
    s!"functions=[{names}]"

/-! ### Carrying out a statement -/

/-- The machine after writing the current cell. -/
def write (m : Machine size) (v : Cell) : Machine size :=
  { m with memory := m.memory.set m.cursor v }

/-- The effect of a statement, with the place to continue at. A comparison that does not hold
continues one line later than any other statement; a call continues on the first line of the body;
`exit` is for the caller to see and does nothing here. -/
def effect (s : Statement) (m : Machine size) : Except Error (Machine size × Int) :=
  let index : Int := s.index
  let next := index + 1
  match s.instruction with
  | .moveBy d n => do
    return ({ m with cursor := ← checkAddress s.line (d.travel m.cursor.val n) size }, next)
  | .moveTo a => do
    return ({ m with cursor := ← checkAddress s.line a size }, next)
  | .copyTo a => do
    let target ← checkAddress s.line a size
    return ({ m with memory := m.memory.set target m.current }, next)
  | .jumpBy d n => .ok (m, d.travel index n)
  | .jumpTo line => .ok (m, line - 1)
  | .print => .ok ({ m with printed := m.printed.push m.current }, next)
  | .function _ | .close | .exit => .ok (m, next)
  | .call name =>
    match m.opening? name with
    | some line => .ok (m, line)
    | none => .error (.functionNotFound s.line name)
  | .compare r a b => do
    let a ← checkAddress s.line a size
    let b ← checkAddress s.line b size
    return (m, if r.holds m.memory[a] m.memory[b] then next else index + 2)
  | .set v => .ok (m.write v, next)
  | .update u v => .ok (m.write (u.apply m.current v), next)

/-- Carries out a statement of a program of `length` lines: the effect, then the landing. -/
def attempt (length : Nat) (s : Statement) (m : Machine size) : Attempt size :=
  match m.effect s with
  | .error e => ⟨m, some e⟩
  | .ok (m, next) =>
    match checkTarget (saturate (next + 1)) length with
    | .error e => ⟨m, some e⟩
    | .ok line => ⟨{ m with position := line - 1 }, none⟩

end Machine

end CursorMachine
