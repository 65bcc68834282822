import CursorMachine.Arm.Assembly
import Mathlib.Algebra.Order.Ring.Int

/-!
# What operations do to a processor

The meaning of the operations of `Arm.Operation` on a 32-bit processor of the seventh architecture:
registers hold words, memory holds bytes, and a word in memory has its least byte first.

A `Processor` has no program counter. Which operation comes next is the business of an execution
(`Proofs/Lowering/Execution.lean`), so `Operation.apply` gives the effect of an operation apart from
where it continues; branches, calls and services have none.

Three groups of facts are used later, and nothing is unfolded after them.

* Flags set by comparing two words decide the conditions (`holds_ofDifference_less` and so on).
* A word that was stored is read back (`word_storeWord_self`), and words apart from it are untouched
  (`word_storeWord_of_apart`).
* Registers that were stored in a row are found there (`word_storeAll`), and registers are loaded
  from the words of a row (`register_loadAll`).
-/

namespace CursorMachine.Arm

/-! ### Flags and conditions -/

/-- The condition flags. -/
structure Flags where
  negative : Bool
  zero : Bool
  /-- After a comparison: there was no borrow. -/
  carry : Bool
  overflow : Bool
  deriving DecidableEq, Repr

/-- The flags after comparing two words, which is subtracting the second from the first. -/
def Flags.ofDifference (a b : UInt32) : Flags where
  negative := (a - b).toInt32 < 0
  zero := a - b = 0
  carry := b ≤ a
  overflow := (a - b).toInt32.toInt ≠ a.toInt32.toInt - b.toInt32.toInt

/-- The condition holds under flags. -/
def Condition.holds (f : Flags) : Condition → Bool
  | .always => true
  | .equal => f.zero
  | .unequal => !f.zero
  | .less => f.negative != f.overflow
  | .greater => !f.zero && f.negative == f.overflow
  | .lower => !f.carry
  | .higher => f.carry && !f.zero

section Comparisons

variable (a b : UInt32)

@[simp]
theorem holds_always (f : Flags) : Condition.always.holds f = true :=
  rfl

/-- Unsigned order is total under any flags. -/
theorem holds_higher_iff (f : Flags) :
    Condition.higher.holds f ↔ ¬Condition.lower.holds f ∧ ¬Condition.equal.holds f := by
  simp [Condition.holds]

/-- Signed order is total under any flags. -/
theorem holds_greater_iff (f : Flags) :
    Condition.greater.holds f ↔ ¬Condition.less.holds f ∧ ¬Condition.equal.holds f := by
  simp [Condition.holds, and_comm]

theorem sub_eq_zero_iff_eq : a - b = 0 ↔ a = b := by
  constructor
  · intro h
    have := congrArg UInt32.toNat h
    have ha := a.toNat_lt
    have hb := b.toNat_lt
    rw [UInt32.toNat_sub, UInt32.toNat_zero] at this
    exact UInt32.toNat.inj (by omega)
  · rintro rfl
    exact UInt32.sub_self a

theorem holds_ofDifference_equal : Condition.equal.holds (.ofDifference a b) ↔ a = b := by
  simp [Condition.holds, Flags.ofDifference, sub_eq_zero_iff_eq]

theorem holds_ofDifference_unequal : Condition.unequal.holds (.ofDifference a b) ↔ a ≠ b := by
  simp [Condition.holds, Flags.ofDifference, sub_eq_zero_iff_eq]

theorem holds_ofDifference_lower : Condition.lower.holds (.ofDifference a b) ↔ a < b := by
  simp [Condition.holds, Flags.ofDifference]

theorem holds_ofDifference_higher : Condition.higher.holds (.ofDifference a b) ↔ b < a := by
  rw [holds_higher_iff, holds_ofDifference_lower, holds_ofDifference_equal,
    UInt32.lt_iff_toNat_lt, UInt32.lt_iff_toNat_lt, ← UInt32.toNat_inj]
  omega

/-- A difference is negative or overflows, but not both, when the first word is less. -/
theorem holds_ofDifference_less :
    Condition.less.holds (.ofDifference a b) ↔ a.toInt32 < b.toInt32 := by
  have ha := a.toInt32.le_toInt
  have ha' := a.toInt32.toInt_lt
  have hb := b.toInt32.le_toInt
  have hb' := b.toInt32.toInt_lt
  have hdiff : (a - b).toInt32.toInt = (a.toInt32.toInt - b.toInt32.toInt).bmod (2 ^ 32) := by
    rw [UInt32.toInt32_sub, Int32.toInt_sub]
  simp only [Condition.holds, Flags.ofDifference, Int32.lt_iff_toInt_lt, hdiff, bne_iff_ne, ne_eq,
    decide_eq_decide, Int32.toInt_zero]
  generalize a.toInt32.toInt = x at *
  generalize b.toInt32.toInt = y at *
  rw [Int.bmod_def]
  split <;> omega

theorem holds_ofDifference_greater :
    Condition.greater.holds (.ofDifference a b) ↔ b.toInt32 < a.toInt32 := by
  have hinj : a.toInt32 = b.toInt32 ↔ a = b :=
    ⟨fun h ↦ by simpa using congrArg Int32.toUInt32 h, fun h ↦ h ▸ rfl⟩
  rw [holds_greater_iff, holds_ofDifference_less, holds_ofDifference_equal, ← hinj,
    Int32.lt_iff_toInt_lt, Int32.lt_iff_toInt_lt, ← Int32.toInt_inj]
  omega

end Comparisons

/-! ### Registers and memory -/

/-- What an operation can read and change. -/
structure Processor where
  register : Register → UInt32
  flags : Flags
  /-- The byte at an address. -/
  byte : UInt32 → UInt8

namespace Processor

/-- The processor after writing a register. -/
def set (q : Processor) (r : Register) (v : UInt32) : Processor :=
  { q with register := Function.update q.register r v }

/-- The word at an address, least byte first. -/
def word (q : Processor) (a : UInt32) : UInt32 :=
  .ofNat ((q.byte a).toNat + 2 ^ 8 * (q.byte (a + 1)).toNat + 2 ^ 16 * (q.byte (a + 2)).toNat +
    2 ^ 24 * (q.byte (a + 3)).toNat)

/-- The processor after storing a word. -/
def storeWord (q : Processor) (a v : UInt32) : Processor :=
  { q with byte := fun x ↦
      if (x - a).toNat < 4 then .ofNat (v.toNat / 2 ^ (8 * (x - a).toNat)) else q.byte x }

/-- The processor after storing the low byte of a word. -/
def storeByte (q : Processor) (a v : UInt32) : Processor :=
  { q with byte := Function.update q.byte a v.toUInt8 }

variable (q : Processor) (r s : Register) (a b v : UInt32)

@[simp]
theorem register_set : (q.set r v).register s = if s = r then v else q.register s := by
  simp [set, Function.update_apply]

@[simp]
theorem flags_set : (q.set r v).flags = q.flags :=
  rfl

@[simp]
theorem byte_set : (q.set r v).byte = q.byte :=
  rfl

@[simp]
theorem word_set : (q.set r v).word a = q.word a :=
  rfl

@[simp]
theorem set_set (w : UInt32) : (q.set r v).set r w = q.set r w := by
  simp [set]

@[simp]
theorem register_storeWord : (q.storeWord a v).register = q.register :=
  rfl

@[simp]
theorem flags_storeWord : (q.storeWord a v).flags = q.flags :=
  rfl

@[simp]
theorem register_storeByte : (q.storeByte a v).register = q.register :=
  rfl

@[simp]
theorem flags_storeByte : (q.storeByte a v).flags = q.flags :=
  rfl

theorem byte_storeByte : (q.storeByte a v).byte b = if b = a then v.toUInt8 else q.byte b := by
  simp [storeByte, Function.update_apply]

theorem byte_storeWord_of_apart (h : 4 ≤ (b - a).toNat) : (q.storeWord a v).byte b = q.byte b :=
  if_neg (Nat.not_lt.2 h)

/-- **A word that was stored is read back.** -/
theorem word_storeWord_self : (q.storeWord a v).word a = v := by
  have hbyte : ∀ k : UInt32, k.toNat < 4 →
      ((q.storeWord a v).byte (a + k)).toNat = v.toNat / 2 ^ (8 * k.toNat) % 2 ^ 8 := by
    intro k hk
    have hdiff : a + k - a = k := by rw [UInt32.add_comm, UInt32.add_sub_cancel]
    have hlt : (a + k - a).toNat < 4 := by rwa [hdiff]
    rw [storeWord]
    dsimp only
    rw [if_pos hlt, hdiff, UInt8.toNat_ofNat']
  have h₀ := hbyte 0 (by decide)
  have h₁ := hbyte 1 (by decide)
  have h₂ := hbyte 2 (by decide)
  have h₃ := hbyte 3 (by decide)
  have hv := v.toNat_lt
  rw [UInt32.add_zero] at h₀
  apply UInt32.toNat.inj
  rw [word, UInt32.toNat_ofNat', h₀, h₁, h₂, h₃]
  simp only [UInt32.reduceToNat]
  omega

variable {q a} in
/-- A word is made of its four bytes. -/
theorem word_eq_of_byte_eq {q' : Processor}
    (h : ∀ k : UInt32, k.toNat < 4 → q'.byte (a + k) = q.byte (a + k)) : q'.word a = q.word a := by
  have h₀ := h 0 (by decide)
  rw [UInt32.add_zero] at h₀
  rw [word, word, h₀, h 1 (by decide), h 2 (by decide), h 3 (by decide)]

/-- A word apart from the one that is stored stays as it is. -/
theorem word_storeWord_of_apart (h : 4 ≤ (b - a).toNat) (h' : 4 ≤ (a - b).toNat) :
    (q.storeWord a v).word b = q.word b := by
  refine word_eq_of_byte_eq fun k hk ↦ byte_storeWord_of_apart q a (b + k) v ?_
  have ha := a.toNat_lt
  have hb := b.toNat_lt
  rw [UInt32.toNat_sub] at h h' ⊢
  rw [UInt32.toNat_add]
  omega

/-! ### Pushing and popping -/

/-- Stores registers one after the other, from an address on. -/
def storeAll (q : Processor) (a : UInt32) : List Register → Processor
  | [] => q
  | r :: rs => storeAll (q.storeWord a (q.register r)) (a + 4) rs

/-- Puts registers below the stack pointer, the first one lowest, and points at it. -/
def push (q : Processor) (rs : List Register) : Processor :=
  let bottom := q.register .sp - .ofNat (4 * rs.length)
  (q.storeAll bottom rs).set .sp bottom

/-- Loads registers from words that follow each other, and points the stack pointer past them. -/
def loadAll (q : Processor) (a : UInt32) : List Register → Processor
  | [] => q.set .sp a
  | r :: rs => loadAll (q.set r (q.word a)) (a + 4) rs

/-- Takes registers back from where the stack pointer points. -/
def pop (q : Processor) (rs : List Register) : Processor :=
  q.loadAll (q.register .sp) rs

/-- The address after the next word, and then some words. -/
theorem add_four_add (k : Nat) : a + 4 + .ofNat (4 * k) = a + .ofNat (4 * (k + 1)) := by
  have hfour : (4 : UInt32).toNat = 4 := rfl
  rw [UInt32.add_assoc]
  congr 1
  apply UInt32.toNat.inj
  rw [UInt32.toNat_add, UInt32.toNat_ofNat', UInt32.toNat_ofNat', hfour]
  omega

section Lists

variable (rs : List Register)

@[simp]
theorem register_storeAll : (q.storeAll a rs).register = q.register := by
  induction rs generalizing q a with
  | nil => rfl
  | cons r rs ih => exact ih (q.storeWord a (q.register r)) (a + 4)

variable {rs} in
/-- Bytes apart from the words that are stored stay as they are. -/
theorem byte_storeAll_of_apart (h : 4 * rs.length ≤ (b - a).toNat) :
    (q.storeAll a rs).byte b = q.byte b := by
  induction rs generalizing q a with
  | nil => rfl
  | cons r rs ih =>
    rw [List.length_cons] at h
    have hfour : (4 : UInt32).toNat = 4 := rfl
    have hb := b.toNat_lt
    have ha := a.toNat_lt
    rw [storeAll, ih, byte_storeWord_of_apart q a b _ (by omega)]
    rw [UInt32.toNat_sub] at h
    rw [UInt32.toNat_sub, UInt32.toNat_add, hfour]
    omega

variable {rs} in
/-- **Registers that were stored are found one after the other.** -/
theorem word_storeAll {k : Nat} (h : k < rs.length) (hlength : 4 * rs.length ≤ 2 ^ 32) :
    (q.storeAll a rs).word (a + .ofNat (4 * k)) = q.register rs[k] := by
  induction rs generalizing q a k with
  | nil => cases h
  | cons r rs ih =>
    rw [List.length_cons] at hlength
    rw [storeAll]
    cases k with
    | zero =>
      have hzero : a + UInt32.ofNat (4 * 0) = a := UInt32.add_zero a
      rw [hzero, List.getElem_cons_zero]
      refine (word_eq_of_byte_eq fun j hj ↦ byte_storeAll_of_apart _ _ _ ?_).trans
        (word_storeWord_self q a (q.register r))
      have ha := a.toNat_lt
      have hfour : (4 : UInt32).toNat = 4 := rfl
      rw [UInt32.toNat_sub, UInt32.toNat_add, UInt32.toNat_add, hfour]
      omega
    | succ k =>
      rw [List.getElem_cons_succ, ← add_four_add]
      exact ih _ _ (Nat.lt_of_succ_lt_succ h) (by omega)

@[simp]
theorem byte_loadAll : (q.loadAll a rs).byte = q.byte := by
  induction rs generalizing q a with
  | nil => rfl
  | cons r rs ih => exact ih (q.set r (q.word a)) (a + 4)

variable {rs}

theorem register_loadAll_of_not_mem {r : Register} (hr : r ∉ rs) (hsp : r ≠ .sp) :
    (q.loadAll a rs).register r = q.register r := by
  induction rs generalizing q a with
  | nil => simp [loadAll, hsp]
  | cons s rs ih =>
    obtain ⟨hne, hr⟩ := not_or.1 (mt List.mem_cons.2 hr)
    rw [loadAll, ih _ _ hr, register_set, if_neg hne]

theorem register_loadAll_sp : (q.loadAll a rs).register .sp = a + .ofNat (4 * rs.length) := by
  induction rs generalizing q a with
  | nil => simp [loadAll]
  | cons r rs ih =>
    rw [loadAll, ih, add_four_add, List.length_cons]

/-- **Registers are loaded from words that follow each other.** -/
theorem register_loadAll {k : Nat} (h : k < rs.length) (hnodup : rs.Nodup) (hsp : .sp ∉ rs) :
    (q.loadAll a rs).register rs[k] = q.word (a + .ofNat (4 * k)) := by
  induction rs generalizing q a k with
  | nil => cases h
  | cons r rs ih =>
    obtain ⟨hr, hnodup⟩ := List.nodup_cons.1 hnodup
    obtain ⟨hne, hsp⟩ := not_or.1 (mt List.mem_cons.2 hsp)
    rw [loadAll]
    cases k with
    | zero =>
      have hzero : a + UInt32.ofNat (4 * 0) = a := UInt32.add_zero a
      rw [List.getElem_cons_zero, register_loadAll_of_not_mem _ _ hr (Ne.symm hne), hzero,
        register_set, if_pos rfl]
    | succ k =>
      rw [List.getElem_cons_succ, ih _ _ (Nat.lt_of_succ_lt_succ h) hnodup hsp, word_set,
        add_four_add]

end Lists

section PushPop

variable {q q' : Processor} {rs rs' : List Register}

theorem register_push_sp :
    (q.push rs).register .sp = q.register .sp - .ofNat (4 * rs.length) := by
  simp [push]

theorem register_push {r : Register} (hr : r ≠ .sp) : (q.push rs).register r = q.register r := by
  simp [push, hr]

section Room

variable (hroom : 4 * rs.length ≤ (q.register .sp).toNat)

include hroom

theorem toNat_register_push_sp :
    ((q.push rs).register .sp).toNat = (q.register .sp).toNat - 4 * rs.length := by
  have htop := (q.register .sp).toNat_lt
  rw [register_push_sp, UInt32.toNat_sub, UInt32.toNat_ofNat']
  omega

theorem byte_push {a : UInt32} (ha : q.register .sp ≤ a) : (q.push rs).byte a = q.byte a := by
  have htop := a.toNat_lt
  have hbottom := toNat_register_push_sp hroom
  rw [register_push_sp] at hbottom
  rw [UInt32.le_iff_toNat_le] at ha
  refine byte_storeAll_of_apart q _ a ?_
  rw [UInt32.toNat_sub, hbottom]
  omega

theorem word_push {k : Nat} (hk : k < rs.length) :
    (q.push rs).word ((q.push rs).register .sp + .ofNat (4 * k)) = q.register rs[k] := by
  have htop := (q.register .sp).toNat_lt
  rw [register_push_sp]
  exact word_storeAll q _ hk (by omega)

end Room

section Kept

variable (hsp : q'.register .sp = (q.push rs).register .sp) (hlength : rs'.length = rs.length)

include hsp hlength

theorem register_pop_sp : (q'.pop rs').register .sp = q.register .sp := by
  rw [pop, register_loadAll_sp, hsp, register_push_sp, hlength, UInt32.sub_add_cancel]

/-- **What was pushed is popped**, when everything from the stack pointer on has been kept. -/
theorem register_pop (hroom : 4 * rs.length ≤ (q.register .sp).toNat)
    (hbyte : ∀ a, (q.push rs).register .sp ≤ a → q'.byte a = (q.push rs).byte a)
    (hnodup : rs'.Nodup) (hnotMem : .sp ∉ rs') {k : Nat} (hk : k < rs'.length)
    (hk' : k < rs.length) : (q'.pop rs').register rs'[k] = q.register rs[k] := by
  have htop := (q.register .sp).toNat_lt
  have hbottom := toNat_register_push_sp hroom
  rw [pop, register_loadAll _ _ hk hnodup hnotMem, hsp, ← word_push hroom hk']
  refine word_eq_of_byte_eq fun j hj ↦ hbyte _ ?_
  rw [UInt32.le_iff_toNat_le, UInt32.toNat_add, UInt32.toNat_add, UInt32.toNat_ofNat', hbottom]
  omega

end Kept

end PushPop

end Processor

/-! ### Operations -/

/-- The registers in the order of their numbers. -/
def Register.all : List Register :=
  [.r0, .r1, .r2, .r3, .r4, .r5, .r6, .r7, .fp, .sp, .lr, .pc]

/-- A range of registers and one more. -/
def Register.range (first last more : Register) : List Register :=
  (all.dropWhile (· ≠ first)).takeWhile (· ≠ last) ++ [last, more]

/-- The word that an operand stands for. -/
def Operand.value (q : Processor) : Operand → UInt32
  | .immediate n => n
  | .register r => q.register r
  | .shifted r bits => q.register r <<< .ofNat bits

/-- The place that an address stands for, with the processor after moving the register that is to be
moved. -/
def Address.resolve (q : Processor) : Address → UInt32 × Processor
  | .offset base distance => (q.register base + .ofInt distance, q)
  | .below base distance => (q.register base - q.register distance, q)
  | .preIndexed base distance =>
    let a := q.register base + .ofInt distance
    (a, q.set base a)
  | .postIndexed base distance =>
    let a := q.register base
    (a, q.set base (a + .ofInt distance))

/-- The result of arithmetic on a register and an operand. -/
def Arithmetic.apply (a b : UInt32) : Arithmetic → UInt32
  | .add => a + b
  | .subtract => a - b
  | .reverseSubtract => b - a

/-- The processor after an operation. A condition that does not hold leaves everything as it is, and
so do operations that only say where to continue. -/
def Operation.apply (q : Processor) : Operation → Processor
  | .move c rd source => if c.holds q.flags then q.set rd (source.value q) else q
  | .moveFlags rd rm =>
    let v := q.register rm
    { q.set rd v with flags := { q.flags with negative := v.toInt32 < 0, zero := v = 0 } }
  | .moveLow rd half => q.set rd (half &&& 0xFFFF)
  | .moveHigh rd half => q.set rd ((q.register rd &&& (0xFFFF : UInt32)) ||| half <<< 16)
  | .arithmetic op c rd rn source =>
    if c.holds q.flags then q.set rd (op.apply (q.register rn) (source.value q)) else q
  | .multiply rd rn rm => q.set rd (q.register rn * q.register rm)
  | .multiplyLong low high rn rm =>
    let product := (q.register rn).toNat * (q.register rm).toNat
    (q.set low (.ofNat product)).set high (.ofNat (product / 2 ^ 32))
  | .shiftRight rd rm bits => q.set rd (q.register rm >>> .ofNat bits)
  | .compare rn source => { q with flags := .ofDifference (q.register rn) (source.value q) }
  | .load rd place =>
    let (a, q) := place.resolve q
    q.set rd (q.word a)
  | .store c rs place =>
    if c.holds q.flags then
      let (a, q') := place.resolve q
      q'.storeWord a (q.register rs)
    else q
  | .storeByte c rs place =>
    if c.holds q.flags then
      let (a, q') := place.resolve q
      q'.storeByte a (q.register rs)
    else q
  | .push first last more => q.push (Register.range first last more)
  | .pop first last more => q.pop (Register.range first last more)
  | .branch .. | .call _ | .service => q

end CursorMachine.Arm
