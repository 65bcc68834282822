import CursorMachine.Error
import CursorMachine.Keyword

/-!
# Bounds

A move names where it wants to go as an integer; this module judges whether that place exists. An
address exists when it is below the memory size. A line to continue at exists when it lies between
one and one past the last line: one past the last line is a place to stand, though nothing is there
to run.

Forward moves are computed up to `farthest`, the largest signed 64-bit number, and stay there: what
lies beyond is reported as that number.
-/

namespace CursorMachine

/-- The largest address or line that a move can name. -/
def farthest : Int := 0x7FFFFFFFFFFFFFFF

/-- A sum that stays at `farthest` when it exceeds it. -/
def saturate (n : Int) : Int := min n farthest

theorem saturate_of_le {n : Int} (h : n ≤ farthest) : saturate n = n := by
  rw [saturate]; omega

/-- Where a move by `n` from `start` leads. -/
def Direction.travel (start : Int) (n : Nat) : Direction → Int
  | .forward => saturate (start + n)
  | .backward => start - n

/-- Judges an address that a line wants to use. -/
def checkAddress (line : Nat) (address : Int) (size : Nat) : Except Error (Fin size) :=
  if h : 0 ≤ address ∧ address < size then .ok ⟨address.toNat, by omega⟩
  else .error (.memoryOutOfRange line address size)

/-- Judges a line to continue at, in a program of `length` lines. -/
def checkTarget (target : Int) (length : Nat) : Except Error Nat :=
  if 1 ≤ target ∧ target ≤ length + 1 then .ok target.toNat
  else .error (.instructionOutOfRange target length)

theorem checkAddress_eq_ok_iff {line size : Nat} {address : Int} {a : Fin size} :
    checkAddress line address size = .ok a ↔ address = a := by
  unfold checkAddress
  split
  · simp only [Except.ok.injEq, Fin.ext_iff]
    omega
  · have := a.isLt
    simp only [reduceCtorEq, false_iff]
    omega

theorem checkTarget_eq_ok_iff {target : Int} {length line : Nat} :
    checkTarget target length = .ok line ↔
      target = line ∧ 1 ≤ line ∧ line ≤ length + 1 := by
  unfold checkTarget
  split
  · rw [Except.ok.injEq]
    omega
  · simp only [reduceCtorEq, false_iff]
    omega

end CursorMachine
