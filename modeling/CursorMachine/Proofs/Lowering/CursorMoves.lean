import CursorMachine.Proofs.Lowering.Statements

/-!
# Cursor moves and their check

The code of a cursor move adds to an address or subtracts from it, in 32 bits, and then compares
what came out with both ends of the frame, as unsigned numbers. An address has room for `2 ^ 30`
words, so a move goes around a ring of that many cells, of which those of the frame come first: the
cursor arrives at cell `Direction.around`, and the check passes just when that cell is one of the
frame (`inFrame_cellAddress_iff`). This is plain arithmetic on addresses; what the code does to
registers is said once, for any address (`Image.reaches_moveCursor`).

So the check can be wrong in one way: a move that leads out of memory may come round to the frame
from the other end. `Direction.ComesRound` says when. It takes a frame of more than `2 ^ 29` cells
(`Direction.not_comesRound`), which is why the frame of a program that simulates its source is held
below that (`Image.reaches_moveBy`, `Image.leaves_moveBy`). Lowering accepts nearly twice as many.
-/

namespace CursorMachine

/-! ### Where moves lead -/

namespace Direction

/-- A move by `n` from address `c` leads out of a memory of `size` cells. -/
def LeavesMemory (size c n : Nat) : Direction → Prop
  | .forward => size ≤ c + n
  | .backward => c < n

/-- Where a move by `n` from address `c` leads, if it stays in memory. -/
def destination (c n : Nat) : Direction → Nat
  | .forward => c + n
  | .backward => c - n

/-- A move leads out of memory and, once around the address space, into it again at the other end.
A move by the number of cells or more is refused before it is made. -/
def ComesRound (size c n : Nat) : Direction → Prop
  | .forward => n < size ∧ 2 ^ 30 ≤ c + n
  | .backward => n < size ∧ c + 2 ^ 30 < size + n

/-- Where a move leads on a ring of `2 ^ 30` cells. -/
def around (c n : Nat) : Direction → Nat
  | .forward => (c + n) % 2 ^ 30
  | .backward => (c + 2 ^ 30 - n) % 2 ^ 30

variable {size c n : Nat} {d : Direction}

theorem around_lt (c n : Nat) (d : Direction) : d.around c n < 2 ^ 30 := by
  cases d <;> exact Nat.mod_lt _ (by decide)

/-- A memory of at most `2 ^ 29` cells is too small for a move to come round. -/
theorem not_comesRound (hsize : size ≤ 2 ^ 29) (hc : c < size) : ¬d.ComesRound size c n := by
  cases d <;> simp only [ComesRound] <;> omega

theorem leavesMemory_of_comesRound (hsize : size < 2 ^ 30) (h : d.ComesRound size c n) :
    d.LeavesMemory size c n := by
  cases d <;> simp only [ComesRound, LeavesMemory] at * <;> omega

theorem ComesRound.lt_size (h : d.ComesRound size c n) : n < size := by
  cases d <;> exact h.1

theorem lt_of_not_leavesMemory (hc : c < size) (h : ¬d.LeavesMemory size c n) : n < size := by
  cases d <;> simp only [LeavesMemory] at h <;> omega

/-- A machine moves its cursor where the move leads. -/
theorem destination_eq {a : Nat} (hsize : size < 2 ^ 30) (h : ¬d.LeavesMemory size c n)
    (ha : d.travel c n = a) : d.destination c n = a := by
  -- Travel saturates far beyond any memory, so a place in memory is the plain sum.
  cases d with
  | forward =>
    simp only [travel, LeavesMemory, saturate, farthest, destination] at *
    omega
  | backward =>
    simp only [travel, LeavesMemory, destination] at *
    omega

section Cells

variable (hsize : size < 2 ^ 30) (hc : c < size)

include hsize hc

/-- A move that stays in memory leads to the same cell of the ring. -/
theorem around_eq_destination (h : ¬d.LeavesMemory size c n) :
    d.around c n = d.destination c n := by
  cases d <;> simp only [LeavesMemory, around, destination] at * <;> omega

/-- **A cell of the memory is arrived at by staying in it or by coming round to it.** -/
theorem around_lt_iff (hn : n < size) :
    d.around c n < size ↔ (d.LeavesMemory size c n → d.ComesRound size c n) := by
  cases d <;> simp only [ComesRound, LeavesMemory, around] <;> omega

/-- A machine refuses the moves that lead out of its memory. -/
theorem travel_mem_iff : (0 ≤ d.travel c n ∧ d.travel c n < size) ↔ ¬d.LeavesMemory size c n := by
  cases d with
  | forward =>
    simp only [travel, LeavesMemory, saturate, farthest]
    omega
  | backward =>
    simp only [travel, LeavesMemory]
    omega

end Cells

end Direction

namespace Arm

/-! ### Addresses on the ring -/

/-- A frame that lowering accepts does not fill the ring. -/
theorem size_lt_of_bytes_lt {size : Nat} (h : size * wordBytes < UInt32.size) : size < 2 ^ 30 := by
  simp only [wordBytes, UInt32.size] at h
  omega

/-- An address passes the check of a moved cursor. -/
def InFrame (size : Nat) (base a : UInt32) : Prop :=
  ¬base - 4 < a ∧ ¬a < base - cellBytes size

/-- Where a move leads a cursor that stands at an address, before it is checked. -/
def movedAddress (d : Direction) (address bytes : UInt32) : UInt32 :=
  match d with
  | .forward => address - bytes
  | .backward => address + bytes

theorem toNat_cellAddress (base : UInt32) (a : Nat) :
    (cellAddress base a).toNat = (2 ^ 32 - (a + 1) * wordBytes % 2 ^ 32 + base.toNat) % 2 ^ 32 := by
  rw [cellAddress, UInt32.toNat_sub, cellOffset, UInt32.toNat_ofNat']

/-- **Moves go around the ring of cells**, whatever the frame is. -/
theorem movedAddress_cellAddress (base : UInt32) (c : Nat) {n : Nat} (hn : n < 2 ^ 30)
    (d : Direction) :
    movedAddress d (cellAddress base c) (cellBytes n) = cellAddress base (d.around c n) := by
  have hbase := base.toNat_lt
  apply UInt32.toNat.inj
  cases d with
  | forward =>
    rw [movedAddress, Direction.around, UInt32.toNat_sub, toNat_cellAddress, toNat_cellAddress,
      cellBytes, UInt32.toNat_ofNat']
    simp only [wordBytes]
    omega
  | backward =>
    rw [movedAddress, Direction.around, UInt32.toNat_add, toNat_cellAddress, toNat_cellAddress,
      cellBytes, UInt32.toNat_ofNat']
    simp only [wordBytes]
    omega

/-- **The cells of the frame are those that pass the check.** -/
theorem inFrame_cellAddress_iff {size : Nat} {base : UInt32} (hpos : 0 < size)
    (hsize : size * wordBytes < UInt32.size) (hbase : size * wordBytes ≤ base.toNat) {k : Nat}
    (hk : k < 2 ^ 30) : InFrame size base (cellAddress base k) ↔ k < size := by
  have hlt := base.toNat_lt
  have hfour : (4 : UInt32).toNat = 4 := rfl
  rw [InFrame, UInt32.lt_iff_toNat_lt, UInt32.lt_iff_toNat_lt, UInt32.toNat_sub, UInt32.toNat_sub,
    toNat_cellAddress, cellBytes, UInt32.toNat_ofNat', hfour]
  simp only [wordBytes, UInt32.size] at *
  omega

/-! ### The code of a move -/

namespace Processor

variable {q q' q'' : Processor} {a : UInt32}

/-- The processor after the cursor has been put on an address, with one register used on the way. -/
structure MovedTo (q : Processor) (a : UInt32) (q' : Processor) : Prop where
  cursor_eq : q'.register .r4 = a
  register_eq : ∀ r, r ≠ .r1 → r ≠ .r4 → q'.register r = q.register r
  byte_eq : q'.byte = q.byte

theorem MovedTo.compared (h : q.MovedTo a q') (v : UInt32) (f : Flags) :
    q.MovedTo a { q'.set .r1 v with flags := f } where
  cursor_eq := by
    rw [← h.cursor_eq]
    exact register_set q' .r1 .r4 v
  register_eq r hr1 hr4 := by
    rw [← h.register_eq r hr1 hr4]
    exact (register_set q' .r1 r v).trans (if_neg hr1)
  byte_eq := h.byte_eq

/-- A cursor put on a cell mirrors the machine with its cursor there. -/
theorem Mirrors.movedTo {size : Nat} {base : UInt32} {m : Machine size} (h : q.Mirrors base m)
    {c : Fin size} (hq : q.MovedTo (cellAddress base c) q') :
    q'.Mirrors base { m with cursor := c } where
  fp_eq := by rw [hq.register_eq _ (by decide) (by decide), h.fp_eq]
  sp_eq := by rw [hq.register_eq _ (by decide) (by decide), h.sp_eq]
  word_eq a ha := by
    rw [← h.word_eq a ha]
    exact word_eq_of_byte_eq fun k _ ↦ by rw [hq.byte_eq]
  cursor_eq := hq.cursor_eq

end Processor

/-- The lower half of the check of a moved cursor. -/
def checkLower (size : Nat) : List Line :=
  loadConstant .r1 (cellBytes size) ++
    [.operation (.arithmetic .subtract .always .r1 .fp (.register .r1)),
      .operation (.compare .r4 (.register .r1)),
      .operation (.branch .lower (.routine .memoryFault))]

namespace Image

variable {i : Image} {size c n line : Nat} {q : Processor} {fault : List Line}

section Check

variable (i : Image) (output : List Event) (rest : List Line) (size line : Nat)

/-- A cursor is moved and then compared with the top of the frame. -/
theorem reaches_moveCursor_upper (d : Direction) (hn : n < size) :
    ∃ q', q.MovedTo (movedAddress d (q.register .r4) (cellBytes n)) q' ∧
      q'.flags = Flags.ofDifference (q'.register .r4) (q.register .fp - 4) ∧
      i.Reaches ⟨lowerInstruction size line (.moveBy d n) ++ rest, q, output⟩
        ⟨.operation (.branch .higher (.routine .memoryFault)) :: (checkLower size ++ rest), q',
          output⟩ := by
  let moved := movedAddress d (q.register .r4) (cellBytes n)
  let op : Arithmetic := match d with
    | .forward => .subtract
    | .backward => .add
  have hcode : lowerInstruction size line (.moveBy d n) ++ rest =
      loadConstant .r1 (cellBytes n) ++
        (.operation (.arithmetic op .always .r4 .r4 (.register .r1)) ::
          .operation (.arithmetic .subtract .always .r1 .fp (.immediate 4)) ::
          .operation (.compare .r4 (.register .r1)) ::
          .operation (.branch .higher (.routine .memoryFault)) :: (checkLower size ++ rest)) := by
    unfold lowerInstruction moveCursor checkLower
    dsimp only
    rw [if_neg (Nat.not_le.2 hn)]
    simp only [List.append_assoc, List.cons_append, List.nil_append]
    rfl
  have hmoved : (Operation.arithmetic op .always .r4 .r4 (.register .r1)).apply
      (q.set .r1 (cellBytes n)) = (q.set .r1 (cellBytes n)).set .r4 moved := by
    cases d <;> simp [op, moved, movedAddress, Operation.apply, Operand.value, Arithmetic.apply]
  have htop : (Operation.arithmetic .subtract .always .r1 .fp (.immediate 4)).apply
      ((q.set .r1 (cellBytes n)).set .r4 moved) =
      ((q.set .r1 (cellBytes n)).set .r4 moved).set .r1 (q.register .fp - 4) := by
    simp [Operation.apply, Operand.value, Arithmetic.apply]
  have hset : q.MovedTo moved ((q.set .r1 (cellBytes n)).set .r4 moved) :=
    ⟨by simp, fun r hr1 hr4 ↦ by simp [hr1, hr4], rfl⟩
  refine ⟨_, hset.compared (q.register .fp - 4) (.ofDifference moved (q.register .fp - 4)),
    by simp, ?_⟩
  rw [hcode]
  refine (reaches_loadConstant .r1 _).trans ?_
  refine (reaches_operation rfl hmoved).trans ?_
  refine (reaches_operation rfl htop).trans (reaches_operation rfl ?_)
  simp [Operation.apply, Operand.value]

/-- A moved cursor is compared with the bottom of the frame. -/
theorem reaches_checkLower {q₀ : Processor} {a : UInt32} (hq : q₀.MovedTo a q) :
    ∃ q', q₀.MovedTo a q' ∧ q'.flags = Flags.ofDifference a (q₀.register .fp - cellBytes size) ∧
      i.Reaches ⟨checkLower size ++ rest, q, output⟩
        ⟨.operation (.branch .lower (.routine .memoryFault)) :: rest, q', output⟩ := by
  have hfp : q.register .fp = q₀.register .fp := hq.register_eq _ (by decide) (by decide)
  have hbottom : (Operation.arithmetic .subtract .always .r1 .fp (.register .r1)).apply
      (q.set .r1 (cellBytes size)) = q.set .r1 (q₀.register .fp - cellBytes size) := by
    simp [Operation.apply, Operand.value, Arithmetic.apply, hfp]
  refine ⟨_, hq.compared (q₀.register .fp - cellBytes size)
    (.ofDifference a (q₀.register .fp - cellBytes size)), rfl, ?_⟩
  rw [checkLower, List.append_assoc]
  refine (reaches_loadConstant .r1 _).trans ?_
  refine (reaches_operation rfl hbottom).trans (reaches_operation rfl ?_)
  simp [Operation.apply, Operand.value, hq.cursor_eq]

open Classical in
/-- **A move goes on when its address passes the check, and to the fault when not.** -/
theorem reaches_moveCursor (d : Direction) (hn : n < size)
    (hfault : seek (Label.routine .memoryFault).text i.lines = some fault) :
    ∃ q', q.MovedTo (movedAddress d (q.register .r4) (cellBytes n)) q' ∧
      i.Reaches ⟨lowerInstruction size line (.moveBy d n) ++ rest, q, output⟩
        ⟨if InFrame size (q.register .fp) (movedAddress d (q.register .r4) (cellBytes n))
          then rest else fault, q', output⟩ := by
  obtain ⟨q₁, hq₁, hflags₁, hupper⟩ := reaches_moveCursor_upper i output rest size line d hn
  have hbranch₁ := hupper.trans (reaches_of_step (step_branch hfault))
  rw [hflags₁, hq₁.cursor_eq] at hbranch₁
  by_cases hhigher : q.register .fp - 4 < movedAddress d (q.register .r4) (cellBytes n)
  · rw [if_pos ((holds_ofDifference_higher _ _).2 hhigher)] at hbranch₁
    exact ⟨q₁, hq₁, by rwa [if_neg fun h ↦ h.1 hhigher]⟩
  · rw [if_neg (mt (holds_ofDifference_higher _ _).1 hhigher)] at hbranch₁
    obtain ⟨q₂, hq₂, hflags₂, hlower⟩ := reaches_checkLower i output rest size hq₁
    have hbranch₂ := hbranch₁.trans (hlower.trans (reaches_of_step (step_branch hfault)))
    rw [hflags₂] at hbranch₂
    refine ⟨q₂, hq₂, ?_⟩
    by_cases hlt : movedAddress d (q.register .r4) (cellBytes n) <
        q.register .fp - cellBytes size
    · rw [if_pos ((holds_ofDifference_lower _ _).2 hlt)] at hbranch₂
      rwa [if_neg fun h ↦ h.2 hlt]
    · rw [if_neg (mt (holds_ofDifference_lower _ _).1 hlt)] at hbranch₂
      rwa [if_pos ⟨hhigher, hlt⟩]

/-- A move by the number of cells or more goes to the fault at once. -/
theorem reaches_moveCursor_of_le (d : Direction) (hn : size ≤ n)
    (hfault : seek (Label.routine .memoryFault).text i.lines = some fault) :
    i.Reaches ⟨lowerInstruction size line (.moveBy d n) ++ rest, q, output⟩ ⟨fault, q, output⟩ := by
  have hcode : lowerInstruction size line (.moveBy d n) = [Arm.jump (.routine .memoryFault)] :=
    if_pos hn
  rw [hcode]
  exact reaches_of_step (step_jump hfault)

end Check

/-! ### Moves from a cell -/

section Cells

variable (i : Image) (output : List Event) (rest : List Line) (line : Nat)
  (hpos : 0 < size) (hsize : size * wordBytes < UInt32.size)
  (hfp : size * wordBytes ≤ (q.register .fp).toNat)
  (hcursor : q.register .r4 = cellAddress (q.register .fp) c)
  (hfault : seek (Label.routine .memoryFault).text i.lines = some fault)

include hpos hsize hfp hcursor hfault

/-- A move arrives on the ring, and goes on when the cell there is one of the frame. -/
theorem reaches_moveBy_around (d : Direction) (hn : n < size) :
    ∃ q', q.MovedTo (cellAddress (q.register .fp) (d.around c n)) q' ∧
      i.Reaches ⟨lowerInstruction size line (.moveBy d n) ++ rest, q, output⟩
        ⟨if d.around c n < size then rest else fault, q', output⟩ := by
  have hlt := Nat.lt_trans hn (size_lt_of_bytes_lt hsize)
  obtain ⟨q', hq', hreaches⟩ := reaches_moveCursor i output rest size line d hn hfault
  rw [hcursor, movedAddress_cellAddress _ c hlt d] at hq' hreaches
  have hiff := inFrame_cellAddress_iff hpos hsize hfp (d.around_lt c n)
  refine ⟨q', hq', ?_⟩
  by_cases hin : d.around c n < size
  · rw [if_pos (hiff.2 hin)] at hreaches
    rwa [if_pos hin]
  · rw [if_neg (mt hiff.1 hin)] at hreaches
    rwa [if_neg hin]

variable (hc : c < size)

include hc

/-- A move that stays in memory leads to its cell. -/
theorem reaches_moveBy_destination {d : Direction} (h : ¬d.LeavesMemory size c n) :
    ∃ q', q.MovedTo (cellAddress (q.register .fp) (d.destination c n)) q' ∧
      i.Reaches ⟨lowerInstruction size line (.moveBy d n) ++ rest, q, output⟩
        ⟨rest, q', output⟩ := by
  have hring := size_lt_of_bytes_lt hsize
  have hn : n < size := d.lt_of_not_leavesMemory hc h
  obtain ⟨q', hq', hreaches⟩ :=
    reaches_moveBy_around i output rest line hpos hsize hfp hcursor hfault d hn
  rw [if_pos ((Direction.around_lt_iff hring hc hn).2 fun hleaves ↦ absurd hleaves h)] at hreaches
  rw [Direction.around_eq_destination hring hc h] at hq'
  exact ⟨q', hq', hreaches⟩

/-- A move that comes round leads to its cell on the ring, which is one of the memory. -/
theorem reaches_moveBy_of_comesRound {d : Direction} (h : d.ComesRound size c n) :
    ∃ q', q.MovedTo (cellAddress (q.register .fp) (d.around c n)) q' ∧
      i.Reaches ⟨lowerInstruction size line (.moveBy d n) ++ rest, q, output⟩
        ⟨rest, q', output⟩ ∧ d.around c n < size := by
  have hring := size_lt_of_bytes_lt hsize
  obtain ⟨q', hq', hreaches⟩ :=
    reaches_moveBy_around i output rest line hpos hsize hfp hcursor hfault d h.lt_size
  have hin := (Direction.around_lt_iff hring hc h.lt_size).2 fun _ ↦ h
  rw [if_pos hin] at hreaches
  exact ⟨q', hq', hreaches, hin⟩

/-- A move that leads out of memory and does not come round is found out. -/
theorem reaches_memoryFault {d : Direction} (h : d.LeavesMemory size c n)
    (hround : ¬d.ComesRound size c n) :
    ∃ q', (∀ r, r ≠ .r1 → r ≠ .r4 → q'.register r = q.register r) ∧ q'.byte = q.byte ∧
      i.Reaches ⟨lowerInstruction size line (.moveBy d n) ++ rest, q, output⟩
        ⟨fault, q', output⟩ := by
  have hring := size_lt_of_bytes_lt hsize
  by_cases hn : size ≤ n
  · -- Such a move is lowered to the fault itself, without a comparison.
    exact ⟨q, fun _ _ _ ↦ rfl, rfl, reaches_moveCursor_of_le i output rest size line d hn hfault⟩
  · obtain ⟨q', hq', hreaches⟩ :=
      reaches_moveBy_around i output rest line hpos hsize hfp hcursor hfault d (Nat.not_le.1 hn)
    rw [if_neg fun hin ↦
      hround ((Direction.around_lt_iff hring hc (Nat.not_le.1 hn)).1 hin h)] at hreaches
    exact ⟨q', hq'.register_eq, hq'.byte_eq, hreaches⟩

/-- **What the check of a move finds, for every frame that lowering accepts.** It goes to the fault
when the move leads out of memory, and to the cell of the move when it does not; except that a move
that comes round goes on, at a cell it has no business with. No move comes round in a frame of
`2 ^ 29` cells or fewer. -/
theorem reaches_moveBy_or_memoryFault (d : Direction) :
    ∃ q', (∀ r, r ≠ .r1 → r ≠ .r4 → q'.register r = q.register r) ∧ q'.byte = q.byte ∧
      (d.LeavesMemory size c n → ¬d.ComesRound size c n →
        i.Reaches ⟨lowerInstruction size line (.moveBy d n) ++ rest, q, output⟩
          ⟨fault, q', output⟩) ∧
      (¬d.LeavesMemory size c n →
        i.Reaches ⟨lowerInstruction size line (.moveBy d n) ++ rest, q, output⟩
          ⟨rest, q', output⟩ ∧
        q'.register .r4 = cellAddress (q.register .fp) (d.destination c n)) ∧
      (d.ComesRound size c n → d.LeavesMemory size c n ∧
        i.Reaches ⟨lowerInstruction size line (.moveBy d n) ++ rest, q, output⟩
          ⟨rest, q', output⟩ ∧
        q'.register .r4 = cellAddress (q.register .fp) (d.around c n) ∧ d.around c n < size) ∧
      (size ≤ 2 ^ 29 → ¬d.ComesRound size c n) := by
  have hsmall : size ≤ 2 ^ 29 → ¬d.ComesRound size c n := fun h ↦ Direction.not_comesRound h hc
  by_cases hleaves : d.LeavesMemory size c n
  · by_cases hround : d.ComesRound size c n
    · obtain ⟨q', hq', hreaches, hin⟩ :=
        reaches_moveBy_of_comesRound i output rest line hpos hsize hfp hcursor hfault hc hround
      exact ⟨q', hq'.register_eq, hq'.byte_eq, fun _ h ↦ absurd hround h,
        fun h ↦ absurd hleaves h, fun _ ↦ ⟨hleaves, hreaches, hq'.cursor_eq, hin⟩, hsmall⟩
    · obtain ⟨q', hregister, hbyte, hreaches⟩ :=
        reaches_memoryFault i output rest line hpos hsize hfp hcursor hfault hc hleaves hround
      exact ⟨q', hregister, hbyte, fun _ _ ↦ hreaches, fun h ↦ absurd hleaves h,
        fun h ↦ absurd h hround, hsmall⟩
  · obtain ⟨q', hq', hreaches⟩ :=
      reaches_moveBy_destination i output rest line hpos hsize hfp hcursor hfault hc hleaves
    have hring := size_lt_of_bytes_lt hsize
    exact ⟨q', hq'.register_eq, hq'.byte_eq, fun h ↦ absurd h hleaves,
      fun _ ↦ ⟨hreaches, hq'.cursor_eq⟩,
      fun h ↦ absurd (Direction.leavesMemory_of_comesRound hring h) hleaves, hsmall⟩

end Cells

/-- From the first of `2 ^ 29 + 1` cells, a move back by `2 ^ 29` comes round to the last cell. -/
theorem reaches_moveBy_or_memoryFault_round :
    ∃ (i : Image) (fault : List Line) (q q' : Processor),
      0 < 2 ^ 29 + 1 ∧ (2 ^ 29 + 1) * wordBytes < UInt32.size ∧
      (2 ^ 29 + 1) * wordBytes ≤ (q.register .fp).toNat ∧
      q.register .r4 = cellAddress (q.register .fp) 0 ∧
      seek (Label.routine .memoryFault).text i.lines = some fault ∧
      Direction.backward.LeavesMemory (2 ^ 29 + 1) 0 (2 ^ 29) ∧
      i.Reaches ⟨lowerInstruction (2 ^ 29 + 1) 1 (.moveBy .backward (2 ^ 29)) ++ [], q, []⟩
        ⟨[], q', []⟩ ∧
      q'.register .r4 = cellAddress (q.register .fp) (2 ^ 29) := by
  let q : Processor :=
    ⟨fun r ↦ if r = .r4 then cellAddress 0xF0000000 0 else 0xF0000000,
      ⟨false, false, false, false⟩, fun _ ↦ 0⟩
  have hround : Direction.backward.ComesRound (2 ^ 29 + 1) 0 (2 ^ 29) := by
    simp only [Direction.ComesRound]
    omega
  obtain ⟨q', -, -, -, -, hcomes, -⟩ :=
    reaches_moveBy_or_memoryFault (i := ⟨exitRoutines false, id⟩) (q := q) (n := 2 ^ 29) [] [] 1
      (by decide : 0 < 2 ^ 29 + 1) (by decide) (by decide) rfl rfl (by decide) .backward
  obtain ⟨hleaves, hreaches, hr4, -⟩ := hcomes hround
  exact ⟨⟨exitRoutines false, id⟩, _, q, q', by decide, by decide, by decide, rfl, rfl, hleaves,
    hreaches, hr4⟩

/-! ### Moves of a machine -/

section Machines

variable {p : Program} {layout : Layout} {options : Options} {inputs : List Cell} {base : UInt32}
  {m : Machine size} {output : List Event} {rest : List Line}
  (hi : i.Holds p layout options inputs) (hroom : Room size base) (hq : q.Mirrors base m)

include hi hroom hq

/-- **A cursor that stays in memory is moved**, and passes both comparisons. -/
theorem reaches_moveBy (d : Direction) {c : Fin size} (hc : d.travel m.cursor.val n = c.val) :
    ∃ q', i.Reaches ⟨lowerInstruction size line (.moveBy d n) ++ rest, q, output⟩
        ⟨rest, q', output⟩ ∧ q'.Mirrors base { m with cursor := c } := by
  have hcursor := m.cursor.isLt
  have hstays : ¬d.LeavesMemory size m.cursor.val n :=
    (Direction.travel_mem_iff hroom.size_lt hcursor).1 (by omega)
  obtain ⟨q', hq', hreaches⟩ := reaches_moveBy_destination i output rest line
    (Nat.zero_lt_of_lt hcursor) hroom.bytes_lt (hq.fp_eq ▸ hroom.bytes_le_base)
    (hq.fp_eq ▸ hq.cursor_eq) hi.seek_exitRoutines.1 hcursor hstays
  rw [hq.fp_eq, Direction.destination_eq hroom.size_lt hstays hc] at hq'
  exact ⟨q', hreaches, hq.movedTo hq'⟩

/-- **A cursor that leaves memory leaves the program**, with the status for addresses. -/
theorem leaves_moveBy (d : Direction)
    (hout : ¬(0 ≤ d.travel m.cursor.val n ∧ d.travel m.cursor.val n < size)) :
    i.Leaves ⟨lowerInstruction size line (.moveBy d n) ++ rest, q, output⟩ memoryFaultStatus
      output := by
  have hcursor := m.cursor.isLt
  have hleaves := not_not.1 (mt (Direction.travel_mem_iff hroom.size_lt hcursor).2 hout)
  obtain ⟨q', -, -, hreaches⟩ := reaches_memoryFault i output rest line
    (Nat.zero_lt_of_lt hcursor) hroom.bytes_lt (hq.fp_eq ▸ hroom.bytes_le_base)
    (hq.fp_eq ▸ hq.cursor_eq) hi.seek_exitRoutines.1 hcursor hleaves
    (Direction.not_comesRound hroom.size_le hcursor)
  exact hreaches.leaves hi.leaves_memoryFaultCode

end Machines

end Image

end Arm

end CursorMachine
