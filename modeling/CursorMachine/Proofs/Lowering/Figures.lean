import CursorMachine.Proofs.Lowering.Statements
import CursorMachine.Proofs.Lowering.Targets

/-!
# The numbers of lowered code

Operands are numbers of any size, and lowered code holds words: constants that are put into
registers, and the lines that labels and branches name. This module says that nothing is lost on the
way (`figures_of_generate`).

* `numbers?` reads code back: every constant that a line or a pair of lines puts into a register,
  with the line that each branch to a line names. It reads nothing that no processor could run: a
  single line holds no more than 8 bits, or 16 bits of a half, and a high half is neither zero nor
  without a low half before it.
* `Program.figures?` is the same sequence computed from the program, operation by operation on words
  of 64 bits, with casts to words of 32 bits. It has no value when an operation or a cast does not
  fit.

`Holds` relates code to its figures. It goes along with the definitions of lowering, piece by piece
(`Holds.append`, `holds_flatMap`); for statements it rests on their checks (`holds_lowerStatement`).
-/

namespace CursorMachine.Arm

/-! ### Reading numbers back -/

/-- A number that lowered code holds. -/
inductive Number where
  /-- A constant that is put into a register. -/
  | constant (r : Register) (n : Nat)
  /-- The line that a branch leads to. -/
  | target (line : Nat)
  /-- The line that a label stands for. -/
  | label (line : Nat)
  deriving DecidableEq, Repr

/-- The numbers that a line holds on its own; `none` when a constant does not fit. -/
def Line.numbers? : Line → Option (List Number)
  | .operation (.move _ r (.immediate n)) => if n ≤ 0xFF then some [.constant r n.toNat] else none
  | .operation (.moveLow r low) => if low ≤ 0xFFFF then some [.constant r low.toNat] else none
  | .operation (.moveHigh ..) => none
  | .operation (.branch _ (.node line)) => some [.target line]
  | .label (.node line) => some [.label line]
  | _ => some []

/-- The numbers that code holds, in order. A high half belongs to the low half right before it. -/
def numbers? : List Line → Option (List Number)
  | [] => some []
  | .operation (.moveLow r low) :: .operation (.moveHigh r' high) :: rest =>
    if r' = r ∧ low ≤ 0xFFFF ∧ 1 ≤ high ∧ high ≤ 0xFFFF then
      (numbers? rest).map (.constant r (high.toNat * 2 ^ 16 + low.toNat) :: ·)
    else none
  | l :: rest => do return (← l.numbers?) ++ (← numbers? rest)

section Reading

variable {l : Line} {xs ys rest : List Line} {ls ns ms all : List Number}

theorem numbers?_moveHigh (r : Register) (high : UInt32) :
    numbers? (.operation (.moveHigh r high) :: rest) = none := rfl

theorem numbers?_cons (hl : l.numbers? = some ls) (hrest : numbers? rest = some ns)
    (hall : all = ls ++ ns) : numbers? (l :: rest) = some all := by
  have hne : ∀ r high t, rest ≠ .operation (.moveHigh r high) :: t := by
    rintro r high t rfl
    rw [numbers?_moveHigh] at hrest
    cases hrest
  rw [numbers?, hl, hrest, hall]
  · rfl
  · exact fun _ _ r high t _ hr ↦ hne r high t hr

/-- **Code is read piece by piece.** No piece that can be read starts with a high half. -/
theorem numbers?_append (hx : numbers? xs = some ns) (hy : numbers? ys = some ms)
    (hall : all = ns ++ ms) : numbers? (xs ++ ys) = some all := by
  subst hall
  fun_induction numbers? xs generalizing ns with
  | case1 =>
    cases hx
    exact hy
  | case2 r low r' high rest hfits ih =>
    obtain ⟨ns, hns, rfl⟩ := Option.map_eq_some_iff.1 hx
    rw [List.cons_append, List.cons_append, numbers?, if_pos hfits, ih hns]
    rfl
  | case3 => cases hx
  | case4 l rest _ ih =>
    obtain ⟨ls, hl, hx⟩ := Option.bind_eq_some_iff.1 hx
    obtain ⟨ns, hns, hx⟩ := Option.bind_eq_some_iff.1 hx
    cases hx
    exact numbers?_cons hl (ih hns) (List.append_assoc _ _ _)

/-- **A constant reads back**, in one line or in two. -/
theorem numbers?_loadConstant (r : Register) (n : UInt32) :
    numbers? (loadConstant r n) = some [.constant r n.toNat] := by
  have hhigh := toNat_shiftRight_high n
  have hlow := toNat_and_low n
  have hn := n.toNat_lt
  unfold loadConstant
  split
  next h =>
    have hl : (Line.operation (.move .always r (.immediate n))).numbers? =
        some [.constant r n.toNat] := if_pos h
    exact numbers?_cons hl rfl rfl
  next h =>
    have hfits : n &&& 0xFFFF ≤ 0xFFFF := by
      rw [UInt32.le_iff_toNat_le, hlow]
      exact Nat.le_of_lt_succ (Nat.mod_lt _ (by decide))
    split
    next hzero =>
      have heq : (n &&& 0xFFFF).toNat = n.toNat := by
        rw [hzero, UInt32.toNat_zero] at hhigh
        omega
      have hl : (Line.operation (.moveLow r (n &&& 0xFFFF))).numbers? =
          some [.constant r n.toNat] := (if_pos hfits).trans (by rw [heq])
      exact numbers?_cons hl rfl rfl
    next hne =>
      have hpos : (1 : UInt32) ≤ n >>> 16 := by
        have hne' : (n >>> 16).toNat ≠ 0 := fun h ↦ hne (UInt32.toNat.inj h)
        exact UInt32.le_iff_toNat_le.2 (Nat.pos_of_ne_zero hne')
      have hhighFits : n >>> 16 ≤ 0xFFFF := by
        rw [UInt32.le_iff_toNat_le, hhigh]
        exact Nat.le_of_lt_succ (Nat.div_lt_of_lt_mul hn)
      have heq : (n >>> 16).toNat * 2 ^ 16 + (n &&& 0xFFFF).toNat = n.toNat := by omega
      rw [numbers?, if_pos ⟨rfl, hfits, hpos, hhighFits⟩, heq]
      rfl

/-- A constant whose low half is zero still takes two lines. -/
example : loadConstant .r0 0x10000 =
    [.operation (.moveLow .r0 0), .operation (.moveHigh .r0 1)] := by
  decide

end Reading

/-! ### Figures -/

/-- What an operation on unsigned words of so many bits comes to, given the number that it comes to
over the integers; `none` when that does not fit. -/
def word? (bits : Nat) (n : Int) : Option Nat :=
  if 0 ≤ n ∧ n < 2 ^ bits then some n.toNat else none

theorem word?_eq {bits k : Nat} {n : Int} (heq : n = k) (h : k < 2 ^ bits) :
    word? bits n = some k := by
  have hlt : (k : Int) < 2 ^ bits := by exact_mod_cast h
  rw [heq, word?, if_pos ⟨Int.natCast_nonneg k, hlt⟩, Int.toNat_natCast]

/-- A number that lowering computes, for the place in the code that it is meant for. -/
inductive Figure where
  /-- The distance of a cell below the frame base, in bytes. -/
  | offset (r : Register) (bytes : Nat)
  /-- What a cell is to hold, or is combined with. -/
  | cell (r : Register) (v : Cell)
  /-- Any other constant. -/
  | constant (r : Register) (n : Nat)
  | target (line : Nat)
  | label (line : Nat)
  deriving DecidableEq, Repr

/-- How a figure reads in code. A negative cell reads as its two's complement. -/
def Figure.number : Figure → Number
  | .offset r n | .constant r n => .constant r n
  | .cell r v => .constant r (v.toInt % 2 ^ 32).toNat
  | .target line => .target line
  | .label line => .label line

/-- A number of cells in bytes. -/
def cellBytes? (cells : Nat) : Option Nat := do
  word? 32 (← word? 64 (cells * wordBytes))

/-- The distance of a cell below the frame base, in bytes. -/
def cellOffset? (address : Nat) : Option Nat := do
  cellBytes? (← word? 64 (address + 1))

end CursorMachine.Arm

namespace CursorMachine

open Arm

/-- The figures of an instruction on a line. -/
def Instruction.figures? (size line : Nat) : Instruction → Option (List Figure)
  | .moveBy _ n =>
    if size ≤ n then some []
    else do return [.constant .r1 (← cellBytes? n), .constant .r1 (← cellBytes? size)]
  | .moveTo a | .copyTo a => do return [.offset .r1 (← cellOffset? a)]
  | .jumpBy .forward n => do return [.target (← word? 64 (line + n))]
  | .jumpBy .backward n => do return [.target (← word? 64 (line - n))]
  | .jumpTo target => some [.target target]
  | .compare _ a b => do
    return [.offset .r2 (← cellOffset? a), .offset .r3 (← cellOffset? b),
      .target (← word? 64 (line + 1)), .target (← word? 64 (line + 2))]
  | .set v => some [.cell .r0 v]
  | .update _ v => some [.cell .r1 v]
  | .print | .function _ | .close | .call _ | .exit => some []

namespace Arm

/-- The figures of an input that is stored. -/
def inputFigures? (value : Cell) (address : Nat) : Option (List Figure) := do
  return [.cell .r0 value, .offset .r1 (← cellOffset? address)]

/-- The figures of the setup. -/
def setupFigures? (size : Nat) (inputs : List Cell) : Option (List Figure) := do
  let frame ← cellBytes? size
  let stored ← inputs.zipIdx.mapM fun (value, address) ↦ inputFigures? value address
  return .constant .r1 frame :: .constant .r0 0 :: stored.flatten

/-- The figure of the branch around the setup before a place, if there is one. -/
def aroundFigures? (place : Nat) : Option (List Figure) :=
  if 0 < place then (word? 64 (place + 1)).map fun line ↦ [.target line] else some []

/-- The figures of the setup before the place where the program starts. -/
def arrivalFigures? (layout : Layout) (inputs : List Cell) (place : Nat) :
    Option (List Figure) :=
  if place = layout.start then do
    return (← aroundFigures? place) ++ (← setupFigures? layout.size inputs)
  else some []

/-- The figures of the print routine and the exit routines. -/
def routineFigures : List Figure :=
  [.constant .r3 0xCCCCCCCD, .constant .r2 45, .constant .r0 1, .constant .r7 4, .constant .r0 2,
    .constant .r0 3, .constant .r7 1]

end Arm

/-- The figures of a statement. -/
def Statement.figures? (size : Nat) (s : Statement) : Option (List Figure) := do
  return .label s.line :: (← s.instruction.figures? size s.line)

/-- The figures of a program, in order. -/
def Program.figures? (p : Program) (layout : Layout) (inputs : List Cell) :
    Option (List Figure) := do
  let statements ← p.statements.zipIdx.mapM fun (s, place) ↦ do
    return (← arrivalFigures? layout inputs place) ++ (← s.figures? layout.size)
  let arrival ← arrivalFigures? layout inputs p.length
  let last ← word? 64 (p.length + 1)
  return statements.flatten ++ arrival ++ .label last :: routineFigures

namespace Arm

/-! ### Code and its figures -/

/-- A distance of a cell reaches a cell of the frame. -/
def Figure.InFrame (size : Nat) : Figure → Prop
  | .offset _ n => 4 ∣ n ∧ 4 ≤ n ∧ n ≤ 4 * size
  | _ => True

/-- The figures have values and stay in the frame, and the code holds them and nothing else. -/
def Holds (size : Nat) (code : List Line) (figures? : Option (List Figure)) : Prop :=
  ∃ fs, figures? = some fs ∧ numbers? code = some (fs.map Figure.number) ∧ ∀ f ∈ fs, f.InFrame size

section Holds

variable {size : Nat} {xs ys : List Line} {f g : Option (List Figure)}

theorem Holds.append (hx : Holds size xs f) (hy : Holds size ys g) :
    Holds size (xs ++ ys) (do return (← f) ++ (← g)) := by
  obtain ⟨fs, rfl, hxs, hfs⟩ := hx
  obtain ⟨gs, rfl, hys, hgs⟩ := hy
  refine ⟨fs ++ gs, rfl, ?_, List.forall_mem_append.2 ⟨hfs, hgs⟩⟩
  rw [List.map_append]
  exact numbers?_append hxs hys rfl

theorem holds_flatMap {α : Type} {as : List α} {code : α → List Line}
    {figures? : α → Option (List Figure)} (h : ∀ a ∈ as, Holds size (code a) (figures? a)) :
    ∃ fss, as.mapM figures? = some fss ∧ Holds size (as.flatMap code) (some fss.flatten) := by
  induction as with
  | nil => exact ⟨[], rfl, [], rfl, rfl, List.forall_mem_nil _⟩
  | cons a as ih =>
    obtain ⟨ha, has⟩ := List.forall_mem_cons.1 h
    obtain ⟨fss, hfss, hholds⟩ := ih has
    obtain ⟨fs, hfs, -⟩ := id ha
    refine ⟨fs :: fss, ?_, ?_⟩
    · rw [List.mapM_cons, hfs, hfss]
      rfl
    · have happend := ha.append hholds
      rw [hfs] at happend
      exact happend

/-- Code without a number. -/
theorem holds_of_numbers? (h : numbers? xs = some []) : Holds size xs (some []) :=
  ⟨[], rfl, h, List.forall_mem_nil _⟩

theorem numbers?_remark (verbose : Bool) (text : String) :
    numbers? (remark verbose text) = some [] := by
  cases verbose <;> rfl

/-! ### Statements -/

theorem bytes_lt_of_lt {cells : Nat} (h : cells < 2 ^ 30) : cells * wordBytes < 2 ^ 32 := by
  unfold wordBytes
  omega

/-- The bytes of some cells are computed exactly. -/
theorem cellBytes?_eq {cells : Nat} (h : cells < 2 ^ 30) :
    cellBytes? cells = some (cellBytes cells).toNat := by
  have hlt := bytes_lt_of_lt h
  have hbytes : word? 64 (cells * wordBytes) = some (cells * wordBytes) :=
    word?_eq (Int.natCast_mul _ _).symm (hlt.trans (by decide +kernel))
  rw [cellBytes?, hbytes, Option.bind_eq_bind, Option.bind_some, toNat_cellBytes hlt]
  exact word?_eq rfl hlt

/-- The distance of a cell of memory is computed exactly, and stays in the frame. -/
theorem cellOffset?_eq (hsize : size < 2 ^ 30) {address : Nat} (h : address < size) :
    cellOffset? address = some (cellOffset address).toNat ∧
      ∀ r, (Figure.offset r (cellOffset address).toNat).InFrame size := by
  have hlt : address + 1 < 2 ^ 30 := by omega
  refine ⟨?_, fun r ↦ ?_⟩
  · rw [cellOffset?, word?_eq (Int.natCast_succ address).symm (by omega), Option.bind_eq_bind,
      Option.bind_some]
    exact cellBytes?_eq hlt
  · have hoffset : (cellOffset address).toNat = (address + 1) * 4 :=
      toNat_cellBytes (bytes_lt_of_lt hlt)
    show 4 ∣ _ ∧ 4 ≤ _ ∧ _ ≤ 4 * size
    omega

/-- A cell reads as its two's complement. -/
theorem toNat_toUInt32 (v : Cell) : v.toUInt32.toNat = (v.toInt % 2 ^ 32).toNat := by
  have hint : v.toInt = v.toBitVec.toInt := rfl
  have hnat : v.toUInt32.toNat = v.toBitVec.toNat := rfl
  have hlt := v.toBitVec.isLt
  rw [hint, hnat, BitVec.toInt_eq_toNat_cond]
  split <;> omega

theorem numbers?_loadCell (r scratch : Register) (address : Nat) :
    numbers? (loadCell r scratch address) =
      some [.constant scratch (cellOffset address).toNat] := by
  have hload : numbers? [.operation (.load r (.below .fp scratch))] = some [] := rfl
  exact numbers?_append (numbers?_loadConstant scratch _) hload rfl

theorem holds_moveCursor (hsize : size < 2 ^ 30) (line : Nat) (d : Direction) (n : Nat) :
    Holds size (moveCursor size d n) ((Instruction.moveBy d n).figures? size line) := by
  unfold Instruction.figures? moveCursor
  dsimp only
  split
  next => exact holds_of_numbers? rfl
  next hn =>
    rw [cellBytes?_eq (by omega), cellBytes?_eq hsize]
    refine ⟨_, rfl, ?_, by simp [Figure.InFrame]⟩
    have hmove := numbers?_loadConstant .r1 (cellBytes n)
    have hframe := numbers?_loadConstant .r1 (cellBytes size)
    exact numbers?_append (numbers?_append (numbers?_append hmove rfl rfl) hframe rfl) rfl rfl

theorem holds_moveTo (hsize : size < 2 ^ 30) (line : Nat) {a : Nat} (ha : a < size) :
    Holds size (lowerInstruction size line (.moveTo a))
      ((Instruction.moveTo a).figures? size line) := by
  obtain ⟨hoffset, hframe⟩ := cellOffset?_eq hsize ha
  rw [Instruction.figures?, hoffset]
  refine ⟨_, rfl, ?_, List.forall_mem_singleton.2 (hframe _)⟩
  exact numbers?_append (numbers?_loadConstant .r1 _) rfl rfl

theorem holds_copyTo (hsize : size < 2 ^ 30) (line : Nat) {a : Nat} (ha : a < size) :
    Holds size (lowerInstruction size line (.copyTo a))
      ((Instruction.copyTo a).figures? size line) := by
  obtain ⟨hoffset, hframe⟩ := cellOffset?_eq hsize ha
  rw [Instruction.figures?, hoffset, lowerInstruction]
  refine ⟨_, rfl, ?_, List.forall_mem_singleton.2 (hframe _)⟩
  exact numbers?_append (numbers?_cons rfl (numbers?_loadConstant .r1 _) rfl) rfl rfl

theorem holds_compare (hsize : size < 2 ^ 30) {line a b : Nat} (r : Relation) (ha : a < size)
    (hb : b < size) (hline : line + 2 < 2 ^ 64) :
    Holds size (lowerInstruction size line (.compare r a b))
      ((Instruction.compare r a b).figures? size line) := by
  obtain ⟨haoffset, haframe⟩ := cellOffset?_eq hsize ha
  obtain ⟨hboffset, hbframe⟩ := cellOffset?_eq hsize hb
  rw [Instruction.figures?, haoffset, hboffset, word?_eq (k := line + 1) (by omega) (by omega),
    word?_eq (k := line + 2) (by omega) hline]
  refine ⟨_, rfl, ?_, ?_⟩
  · have hfirst := numbers?_loadCell .r0 .r2 a
    have hsecond := numbers?_loadCell .r1 .r3 b
    exact numbers?_append (numbers?_append hfirst hsecond rfl) rfl rfl
  · simp only [List.forall_mem_cons]
    exact ⟨haframe _, hbframe _, trivial, trivial, List.forall_mem_nil _⟩

theorem holds_set (line : Nat) (v : Cell) :
    Holds size (lowerInstruction size line (.set v)) ((Instruction.set v).figures? size line) := by
  refine ⟨_, rfl, ?_, List.forall_mem_singleton.2 trivial⟩
  rw [List.map_singleton, Figure.number, ← toNat_toUInt32]
  exact numbers?_append (numbers?_loadConstant .r0 _) rfl rfl

theorem holds_update (line : Nat) (u : Update) (v : Cell) :
    Holds size (lowerInstruction size line (.update u v))
      ((Instruction.update u v).figures? size line) := by
  refine ⟨_, rfl, ?_, List.forall_mem_singleton.2 trivial⟩
  rw [List.map_singleton, Figure.number, ← toNat_toUInt32, lowerInstruction]
  have hcombine :
      numbers? [.operation (combine u), .operation (.store .always .r2 (.offset .r4 0))] =
        some [] := by
    cases u <;> rfl
  exact numbers?_append (numbers?_cons rfl (numbers?_loadConstant .r1 _) rfl) hcombine rfl

/-- The line that an accepted jump names is computed exactly: the jump neither reaches `farthest`,
nor does it lead below zero. -/
theorem holds_jumpBy {line length n : Nat} {d : Direction} (hlength : (length : Int) + 1 < farthest)
    (h : discard (checkTarget (d.travel line n) length) = .ok ()) :
    Holds size (lowerInstruction size line (.jumpBy d n))
      ((Instruction.jumpBy d n).figures? size line) := by
  obtain ⟨line', hok⟩ := discard_eq_ok_iff.1 h
  have hbounds := checkTarget_eq_ok_iff.1 hok
  unfold farthest at hlength
  cases d with
  | forward =>
    simp only [Direction.travel, saturate, farthest] at hbounds
    rw [Instruction.figures?, word?_eq (k := line + n) (by omega) (by omega)]
    exact ⟨_, rfl, rfl, List.forall_mem_singleton.2 trivial⟩
  | backward =>
    simp only [Direction.travel] at hbounds
    rw [Instruction.figures?, word?_eq (k := line - n) (by omega) (by omega)]
    exact ⟨_, rfl, rfl, List.forall_mem_singleton.2 trivial⟩

theorem lt_of_checkAddress {line a : Nat} (h : discard (checkAddress line a size) = .ok ()) :
    a < size := by
  obtain ⟨a', ha'⟩ := discard_eq_ok_iff.1 h
  have heq := checkAddress_eq_ok_iff.1 ha'
  omega

/-- **The code of a statement that passes its check holds its figures.** -/
theorem holds_lowerStatement {layout : Layout} {length : Nat} {verbose : Bool} {s : Statement}
    (hsize : layout.size < 2 ^ 30) (hlength : (length : Int) + 1 < farthest)
    (h : s.check layout length = .ok ()) :
    Holds layout.size (lowerStatement layout.size verbose s) (s.figures? layout.size) := by
  suffices Holds layout.size (lowerInstruction layout.size s.line s.instruction)
      (s.instruction.figures? layout.size s.line) by
    obtain ⟨fs, hfs, hnumbers, hframe⟩ := this
    refine ⟨.label s.line :: fs, ?_, ?_, List.forall_mem_cons.2 ⟨trivial, hframe⟩⟩
    · rw [Statement.figures?, hfs]
      rfl
    · exact numbers?_append (numbers?_cons rfl (numbers?_remark _ _) rfl) hnumbers rfl
  unfold Statement.check at h
  rcases hi : s.instruction with
    ⟨d, n⟩ | a | a | ⟨d, n⟩ | line | - | name | - | name | - | ⟨r, a, b⟩ | v | ⟨u, v⟩ <;>
    simp only [hi] at h
  case moveBy => exact holds_moveCursor hsize _ d n
  case moveTo => exact holds_moveTo hsize _ (lt_of_checkAddress h)
  case copyTo => exact holds_copyTo hsize _ (lt_of_checkAddress h)
  case jumpBy => exact holds_jumpBy hlength h
  case compare =>
    obtain ⟨⟨⟩, ha, h⟩ := bind_eq_ok_iff.1 h
    obtain ⟨⟨⟩, hb, h⟩ := bind_eq_ok_iff.1 h
    obtain ⟨⟨⟩, -, hskips⟩ := bind_eq_ok_iff.1 h
    obtain ⟨line, hline⟩ := discard_eq_ok_iff.1 hskips
    have hbounds := checkTarget_eq_ok_iff.1 hline
    unfold farthest at hlength
    exact holds_compare hsize r (lt_of_checkAddress ha) (lt_of_checkAddress hb) (by omega)
  case set => exact holds_set _ v
  case update => exact holds_update _ u v
  all_goals exact ⟨_, rfl, rfl, by simp [Figure.InFrame]⟩

/-! ### Around the statements -/

theorem holds_storeInput (hsize : size < 2 ^ 30) (v : Cell) {address : Nat} (h : address < size) :
    Holds size (storeInput v address) (inputFigures? v address) := by
  obtain ⟨hoffset, hframe⟩ := cellOffset?_eq hsize h
  rw [inputFigures?, hoffset]
  refine ⟨_, rfl, ?_, ?_⟩
  · rw [List.map_cons, Figure.number, ← toNat_toUInt32]
    have hvalue := numbers?_loadConstant .r0 v.toUInt32
    have haddress := numbers?_loadConstant .r1 (cellOffset address)
    exact numbers?_append (numbers?_append hvalue haddress rfl) rfl rfl
  · exact List.forall_mem_cons.2 ⟨trivial, List.forall_mem_singleton.2 (hframe _)⟩

theorem holds_setup (hsize : size < 2 ^ 30) {inputs : List Cell} (hinputs : inputs.length ≤ size)
    (options : Options) : Holds size (setup options size inputs) (setupFigures? size inputs) := by
  have hinput : ∀ v ∈ inputs.zipIdx, Holds size (storeInput v.1 v.2) (inputFigures? v.1 v.2) := by
    intro v hv
    have hlt := List.snd_lt_of_mem_zipIdx hv
    exact holds_storeInput hsize v.1 (by omega)
  obtain ⟨fss, hfss, hstored⟩ := holds_flatMap hinput
  obtain ⟨fs, hfs, hnumbers, hframe⟩ := hstored
  cases hfs
  refine ⟨.constant .r1 (cellBytes size).toNat :: .constant .r0 0 :: fss.flatten, ?_, ?_, ?_⟩
  · rw [setupFigures?, cellBytes?_eq hsize, Option.bind_eq_bind, Option.bind_some, hfss]
    rfl
  · have hreserved := numbers?_loadConstant .r1 (cellBytes size)
    unfold setup
    refine numbers?_append (numbers?_append (numbers?_append (numbers?_append (numbers?_append
      (numbers?_append rfl (numbers?_remark _ _) rfl) (numbers?_cons rfl hreserved rfl) rfl)
      rfl rfl) (numbers?_remark _ _) rfl) hnumbers rfl) rfl ?_
    simp [Figure.number]
  · exact List.forall_mem_cons.2 ⟨trivial, List.forall_mem_cons.2 ⟨trivial, hframe⟩⟩

theorem holds_arrival {layout : Layout} (hsize : layout.size < 2 ^ 30) {inputs : List Cell}
    (hinputs : inputs.length ≤ layout.size) (options : Options) {place : Nat}
    (hplace : place + 1 < 2 ^ 64) :
    Holds layout.size (arrival layout options inputs place)
      (arrivalFigures? layout inputs place) := by
  unfold arrival arrivalFigures?
  split
  next =>
    refine Holds.append ?_ (holds_setup hsize hinputs options)
    unfold aroundFigures?
    split
    next =>
      rw [word?_eq (k := place + 1) (by omega) hplace]
      exact ⟨_, rfl, rfl, List.forall_mem_singleton.2 trivial⟩
    next => exact holds_of_numbers? rfl
  next => exact holds_of_numbers? rfl

theorem numbers?_printRoutine (verbose : Bool) :
    numbers? (printRoutine verbose) =
      some [.constant .r3 0xCCCCCCCD, .constant .r2 45, .constant .r0 1, .constant .r7 4] := by
  have hreciprocal := numbers?_loadConstant .r3 0xCCCCCCCD
  unfold printRoutine
  refine numbers?_append (numbers?_append (numbers?_append (numbers?_remark _ _) rfl rfl)
    hreciprocal rfl) rfl rfl

theorem numbers?_exitRoutines (verbose : Bool) :
    numbers? (exitRoutines verbose) =
      some [.constant .r0 2, .constant .r0 3, .constant .r7 1] :=
  numbers?_append (numbers?_remark _ _) rfl rfl

/-- **The code of a program holds its figures**, when its statements pass their checks. -/
theorem holds_lower {p : Program} {layout : Layout} {options : Options} {inputs : List Cell}
    (hsize : layout.size < 2 ^ 30) (hinputs : inputs.length ≤ layout.size)
    (hlength : (p.length : Int) + 1 < farthest)
    (hchecks : ∀ s ∈ p.statements, s.check layout p.length = .ok ()) :
    Holds layout.size (lower p layout options inputs) (p.figures? layout inputs) := by
  have hplaces : p.length + 1 < 2 ^ 64 := by
    unfold farthest at hlength
    omega
  have hstatement : ∀ v ∈ p.statements.zipIdx,
      Holds layout.size
        (arrival layout options inputs v.2 ++ lowerStatement layout.size options.verbose v.1)
        (do return (← arrivalFigures? layout inputs v.2) ++ (← v.1.figures? layout.size)) := by
    intro v hv
    have hlt : v.2 < p.length := List.snd_lt_of_mem_zipIdx hv
    have hcheck := hchecks v.1 (List.fst_mem_of_mem_zipIdx hv)
    exact (holds_arrival hsize hinputs options (by omega)).append
      (holds_lowerStatement hsize hlength hcheck)
  obtain ⟨fss, hfss, hstatements⟩ := holds_flatMap hstatement
  obtain ⟨fs, hfs, hnumbers, hframe⟩ := hstatements
  cases hfs
  obtain ⟨gs, hgs, harrival, hframe'⟩ := holds_arrival hsize hinputs options hplaces
  have hlast : word? 64 (p.length + 1) = some (p.length + 1) := word?_eq (by omega) hplaces
  refine ⟨fss.flatten ++ gs ++ .label (p.length + 1) :: routineFigures, ?_, ?_, ?_⟩
  · exact Option.bind_eq_some_iff.2 ⟨fss, hfss, Option.bind_eq_some_iff.2
      ⟨gs, hgs, Option.bind_eq_some_iff.2 ⟨_, hlast, rfl⟩⟩⟩
  · unfold lower
    refine numbers?_append (numbers?_append (numbers?_append (numbers?_append (numbers?_append rfl
      hnumbers rfl) harrival rfl) rfl rfl) (numbers?_printRoutine _) rfl)
      (numbers?_exitRoutines _) ?_
    simp [routineFigures, Figure.number]
  · refine List.forall_mem_append.2 ⟨List.forall_mem_append.2 ⟨hframe, hframe'⟩, ?_⟩
    simp [routineFigures, Figure.InFrame]

/-- **Lowered code holds exactly the numbers that it is meant to hold.** No operation on unsigned
words overflows while a program is lowered, and no cast loses anything, so that its figures have
values; read back from the code, constant by constant and label by label, these are the figures and
nothing else. Distances of cells are multiples of four that stay in the frame. The text has fewer
than `2 ^ 63` characters, so no line number leaves the words. -/
theorem figures_of_generate {source : String} (hsource : source.length < 2 ^ 63)
    (hsize : size < 2 ^ 30) {p : Program} {m : Machine size} {options : Options}
    {inputs : List Cell} {lines : List Line} (hp : Program.ofText source = .ok p)
    (hlines : generate p m.layout options inputs = .ok lines) :
    ∃ fs, p.figures? m.layout inputs = some fs ∧ numbers? lines = some (fs.map Figure.number) ∧
      ∀ r n, .offset r n ∈ fs → 4 ∣ n ∧ 4 ≤ n ∧ n ≤ 4 * size := by
  have hlength := Program.length_le_of_ofText hp hsource
  obtain ⟨haccepts, hchecks, rfl⟩ := generate_eq_ok_iff.1 hlines
  have hfarthest : (p.length : Int) + 1 < farthest := by
    unfold farthest
    omega
  have hholds : Holds size (lower p m.layout options inputs) (p.figures? m.layout inputs) :=
    holds_lower hsize haccepts.inputs_le hfarthest hchecks
  obtain ⟨fs, hfs, hnumbers, hframe⟩ := hholds
  exact ⟨fs, hfs, hnumbers, fun r n hn ↦ hframe _ hn⟩

/-- A negative cell, a constant whose low half is zero, a comparison and a jump back. -/
theorem figures_of_generate_halves :
    ∃ (p : Program) (m : Machine 2) (lines : List Line) (fs : List Figure),
      Program.ofText ("set value to -2\nincrement pointer by 65536\nless compare between 1 0\n" ++
        "plus memory pointer 1\nmin instruction pointer 3\nexit") = .ok p ∧
      Machine.prepare p ⟨2, []⟩ = .ok m ∧ generate p m.layout {} [5] = .ok lines ∧
      p.figures? m.layout [5] = some fs ∧ numbers? lines = some (fs.map Figure.number) ∧
      fs = [.constant .r1 8, .constant .r0 0, .cell .r0 5, .offset .r1 4, .label 1, .cell .r0 (-2),
        .label 2, .cell .r1 65536, .label 3, .offset .r2 8, .offset .r3 4, .target 4, .target 5,
        .label 4, .constant .r1 4, .constant .r1 8, .label 5, .target 2, .label 6, .label 7] ++
          routineFigures ∧
      (Figure.cell .r0 (-2)).number = .constant .r0 4294967294 ∧
      ∀ r n, .offset r n ∈ fs → 4 ∣ n ∧ 4 ≤ n ∧ n ≤ 4 * 2 := by
  let p : Program :=
    ⟨[⟨1, ["-2"], .set (-2)⟩, ⟨2, ["65536"], .update .add 65536⟩,
      ⟨3, ["1", "0"], .compare .less 1 0⟩, ⟨4, ["1"], .moveBy .forward 1⟩,
      ⟨5, ["3"], .jumpBy .backward 3⟩, ⟨6, [], .exit⟩], []⟩
  let m : Machine 2 := ⟨#v[0, 0], 0, 0, [], #[]⟩
  have hp : Program.ofText
      ("set value to -2\nincrement pointer by 65536\nless compare between 1 0\n" ++
        "plus memory pointer 1\nmin instruction pointer 3\nexit") = .ok p := by
    decide +kernel
  have hm : Machine.prepare p ⟨2, []⟩ = .ok m := by rfl
  have hlines : generate p m.layout {} [5] = .ok (lower p m.layout {} [5]) := by rfl
  have hfigures : p.figures? m.layout [5] = some
      ([.constant .r1 8, .constant .r0 0, .cell .r0 5, .offset .r1 4, .label 1, .cell .r0 (-2),
        .label 2, .cell .r1 65536, .label 3, .offset .r2 8, .offset .r3 4, .target 4, .target 5,
        .label 4, .constant .r1 4, .constant .r1 8, .label 5, .target 2, .label 6, .label 7] ++
          routineFigures) := by
    decide +kernel
  obtain ⟨fs, hfs, hnumbers, hframe⟩ :=
    figures_of_generate (by decide +kernel) (by decide +kernel) hp hlines
  exact ⟨p, m, _, fs, hp, hm, hlines, hfs, hnumbers, Option.some.inj (hfs.symm.trans hfigures),
    by decide +kernel, hframe⟩

end Holds

end Arm

end CursorMachine
