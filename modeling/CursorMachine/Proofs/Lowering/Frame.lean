import CursorMachine.Arm.Lowering
import CursorMachine.Proofs.Lowering.Processor

/-!
# Cells in a frame

How a machine lies in the memory and the registers of a processor. `Processor.Frame` places the
cells: cell `a` is the word `cellOffset a` bytes below the base. `Processor.Mirrors` adds the
cursor, as the address of the current cell.

Addresses are 32-bit words and wrap around. `Room` keeps the whole frame, and what the print routine
needs below it, above address zero, so that addresses of cells are plain numbers
(`Room.toNat_cellAddress`) and cells are apart (`Room.apart`). It also keeps the frame within half
of the address space, which is what cursor moves need.
-/

namespace CursorMachine.Arm

/-- The bytes that the print routine uses below the stack pointer. -/
def printBytes : Nat := 36

/-- A frame of cells below a base fits the memory, with what the print routine uses below it. -/
structure Room (size : Nat) (base : UInt32) : Prop where
  size_le : size ≤ 2 ^ 29
  bytes_le : size * wordBytes + printBytes ≤ base.toNat

/-- Cells that fit 32-bit addresses are measured exactly. -/
theorem toNat_cellBytes {cells : Nat} (h : cells * wordBytes < UInt32.size) :
    (cellBytes cells).toNat = cells * wordBytes :=
  UInt32.toNat_ofNat_of_lt' h

/-- The address of a cell. -/
def cellAddress (base : UInt32) (a : Nat) : UInt32 :=
  base - cellOffset a

namespace Room

variable {size a b : Nat} {base : UInt32} (h : Room size base)

include h

theorem size_lt : size < 2 ^ 30 :=
  Nat.lt_of_le_of_lt h.size_le (by decide)

theorem bytes_lt : size * wordBytes < UInt32.size := by
  have := h.size_le
  simp only [wordBytes, UInt32.size]
  omega

theorem bytes_le_base : size * wordBytes ≤ base.toNat :=
  Nat.le_of_add_right_le h.bytes_le

theorem toNat_cellOffset (ha : a < size) : (cellOffset a).toNat = (a + 1) * wordBytes := by
  have hlt := h.bytes_lt
  exact Arm.toNat_cellBytes (Nat.lt_of_le_of_lt (Nat.mul_le_mul_right _ ha) hlt)

theorem toNat_cellBytes (ha : a ≤ size) : (cellBytes a).toNat = a * wordBytes := by
  have hlt := h.bytes_lt
  exact Arm.toNat_cellBytes (Nat.lt_of_le_of_lt (Nat.mul_le_mul_right _ ha) hlt)

theorem toNat_cellAddress (ha : a < size) :
    (cellAddress base a).toNat = base.toNat - (a + 1) * wordBytes := by
  have hbytes := h.bytes_le
  have hoffset := h.toNat_cellOffset ha
  have hbase := base.toNat_lt
  rw [cellAddress, UInt32.toNat_sub, hoffset]
  simp only [wordBytes] at *
  omega

/-- Different cells are apart. -/
theorem apart (ha : a < size) (hb : b < size) (hne : a ≠ b) :
    4 ≤ (cellAddress base a - cellAddress base b).toNat := by
  have hbytes := h.bytes_le
  have hbase := base.toNat_lt
  rw [UInt32.toNat_sub, h.toNat_cellAddress ha, h.toNat_cellAddress hb]
  simp only [wordBytes] at *
  omega

theorem toNat_bottom : (base - cellBytes size).toNat = base.toNat - size * wordBytes := by
  have hbytes := h.bytes_le
  have hsize := h.toNat_cellBytes (Nat.le_refl size)
  have hbase := base.toNat_lt
  rw [UInt32.toNat_sub, hsize]
  omega

end Room

namespace Processor

variable {size : Nat} {base : UInt32} {memory : Vector Cell size} {m : Machine size}
  {q : Processor}

/-- The cells lie in a frame below the base. -/
structure Frame (base : UInt32) (memory : Vector Cell size) (q : Processor) : Prop where
  fp_eq : q.register .fp = base
  sp_eq : q.register .sp = base - cellBytes size
  word_eq : ∀ a (h : a < size), q.word (cellAddress base a) = memory[a].toUInt32

/-- The cells lie in a frame, and the cursor is the address of the current one. -/
structure Mirrors (base : UInt32) (m : Machine size) (q : Processor) : Prop extends
    Frame base m.memory q where
  cursor_eq : q.register .r4 = cellAddress base m.cursor

/-- A register that is free to use holds nothing of the machine. -/
theorem Frame.set (h : q.Frame base memory) {r : Register} (hfp : r ≠ .fp) (hsp : r ≠ .sp)
    (v : UInt32) : (q.set r v).Frame base memory where
  fp_eq := by rw [register_set, if_neg hfp.symm, h.fp_eq]
  sp_eq := by rw [register_set, if_neg hsp.symm, h.sp_eq]
  word_eq := h.word_eq

theorem Frame.setFlags (h : q.Frame base memory) (f : Flags) :
    ({ q with flags := f } : Processor).Frame base memory :=
  ⟨h.fp_eq, h.sp_eq, h.word_eq⟩

/-- **Storing a word at the address of a cell writes the cell.** -/
theorem Frame.storeWord (h : q.Frame base memory) (hroom : Room size base) {a : Nat}
    (ha : a < size) (v : Cell) :
    (q.storeWord (cellAddress base a) v.toUInt32).Frame base (memory.set a v) where
  fp_eq := h.fp_eq
  sp_eq := h.sp_eq
  word_eq b hb := by
    rw [Vector.getElem_set]
    split
    · next heq =>
      subst heq
      exact word_storeWord_self q _ _
    · next hne =>
      rw [word_storeWord_of_apart q _ _ _ (hroom.apart hb ha (Ne.symm hne)) (hroom.apart ha hb hne)]
      exact h.word_eq b hb

end Processor

end CursorMachine.Arm
