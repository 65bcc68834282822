import CursorMachine.Proofs.Lowering.Frame
import CursorMachine.Proofs.Lowering.Places

/-!
# The code of one instruction

What the code of an instruction does to a processor that mirrors a machine. Whatever code comes
after is `rest`. For an instruction that continues on the next line, `rest` is reached, and the
processor then mirrors the machine after the effect; a comparison reaches one of its two branches.
Moves of the cursor by an amount are the subject of `Proofs/Lowering/CursorMoves.lean`: their code
is the only one that compares addresses and the only one that can leave the program.

The print routine is known by what its callers rely on, `PrintContract`.
-/

namespace CursorMachine.Arm

/-! ### Constants -/

/-- The low half of a word, as it is masked. -/
theorem toNat_and_low (n : UInt32) : (n &&& (0xFFFF : UInt32)).toNat = n.toNat % 2 ^ 16 := by
  rw [UInt32.toNat_and]
  exact Nat.and_two_pow_sub_one_eq_mod n.toNat 16

theorem toNat_shiftRight_high (n : UInt32) : (n >>> (16 : UInt32)).toNat = n.toNat / 2 ^ 16 := by
  rw [UInt32.toNat_shiftRight, Nat.shiftRight_eq_div_pow]
  rfl

/-- A word without a high half is its low half. -/
theorem low_eq_of_high_eq_zero {n : UInt32} (h : n >>> 16 = 0) :
    n &&& (0xFFFF : UInt32) &&& (0xFFFF : UInt32) = n := by
  apply UInt32.toNat.inj
  have hn := n.toNat_lt
  have hhigh := toNat_shiftRight_high n
  rw [h, UInt32.toNat_zero] at hhigh
  rw [toNat_and_low, toNat_and_low]
  omega

/-- The two halves of a word make the word. -/
theorem low_or_high_eq (n : UInt32) :
    n &&& (0xFFFF : UInt32) &&& (0xFFFF : UInt32) &&& (0xFFFF : UInt32) |||
      (n >>> 16) <<< (16 : UInt32) = n := by
  apply UInt32.toNat.inj
  have hn := n.toNat_lt
  have hhigh : ((n >>> 16) <<< (16 : UInt32)).toNat = (n.toNat / 2 ^ 16) <<< 16 := by
    have hbits : (16 : UInt32).toNat % 32 = 16 := rfl
    rw [UInt32.toNat_shiftLeft, toNat_shiftRight_high, hbits, Nat.shiftLeft_eq]
    omega
  rw [UInt32.toNat_or, toNat_and_low, toNat_and_low, toNat_and_low, hhigh, Nat.or_comm,
    ← Nat.shiftLeft_add_eq_or_of_lt (by omega), Nat.shiftLeft_eq]
  omega

namespace Image

variable {i : Image} {q : Processor} {output : List Event} {rest : List Line}

/-- **Loading a constant puts it into the register**, and does nothing else. -/
theorem reaches_loadConstant (r : Register) (n : UInt32) :
    i.Reaches ⟨loadConstant r n ++ rest, q, output⟩ ⟨rest, q.set r n, output⟩ := by
  unfold loadConstant
  split
  · exact reaches_operation rfl rfl
  · have hlow : (Operation.moveLow r (n &&& 0xFFFF)).apply q =
        q.set r (n &&& 0xFFFF &&& 0xFFFF) := rfl
    refine (reaches_operation rfl hlow).trans ?_
    split
    · next hhigh =>
      rw [low_eq_of_high_eq_zero hhigh]
      exact .refl
    · refine reaches_operation rfl ?_
      rw [Operation.apply, Processor.register_set, if_pos rfl, Processor.set_set, low_or_high_eq]

end Image

/-! ### Reading and writing cells -/

/-- The registers that every statement is free to use. -/
def Register.isFree : Register → Bool
  | .r0 | .r1 | .r2 | .r3 => true
  | _ => false

namespace Processor

variable {size : Nat} {base : UInt32} {memory : Vector Cell size} {m : Machine size}
  {q : Processor} {r s : Register}

theorem Mirrors.set (h : q.Mirrors base m) (hr : r.isFree = true) (v : UInt32) :
    (q.set r v).Mirrors base m := by
  have hfp : r ≠ .fp := by rintro rfl; cases hr
  have hsp : r ≠ .sp := by rintro rfl; cases hr
  have hr4 : r ≠ .r4 := by rintro rfl; cases hr
  exact ⟨h.toFrame.set hfp hsp v, by rw [register_set, if_neg hr4.symm, h.cursor_eq]⟩

theorem Mirrors.setFlags (h : q.Mirrors base m) (f : Flags) :
    ({ q with flags := f } : Processor).Mirrors base m :=
  ⟨h.toFrame.setFlags f, h.cursor_eq⟩

/-- The machine with its cursor elsewhere. -/
theorem Mirrors.setCursor (h : q.Mirrors base m) (c : Fin size) :
    (q.set .r4 (cellAddress base c)).Mirrors base { m with cursor := c } :=
  ⟨h.toFrame.set (by decide) (by decide) _, by simp⟩

/-- The machine with a cell written. -/
theorem Mirrors.storeWord (h : q.Mirrors base m) (hroom : Room size base) (a : Fin size)
    (v : Cell) :
    (q.storeWord (cellAddress base a) v.toUInt32).Mirrors base
      { m with memory := m.memory.set a v a.isLt } :=
  ⟨h.toFrame.storeWord hroom a.isLt v, h.cursor_eq⟩

theorem apply_load_current (h : q.Mirrors base m) (r : Register) :
    (Operation.load r (.offset .r4 0)).apply q = q.set r m.current.toUInt32 := by
  have hzero : (UInt32.ofInt 0) = 0 := rfl
  rw [Operation.apply, Address.resolve, hzero, UInt32.add_zero, h.cursor_eq]
  dsimp only
  rw [h.word_eq _ m.cursor.isLt]
  rfl

theorem apply_store_current (h : q.Mirrors base m) (r : Register) :
    (Operation.store .always r (.offset .r4 0)).apply q =
      q.storeWord (cellAddress base m.cursor) (q.register r) := by
  have hzero : (UInt32.ofInt 0) = 0 := rfl
  rw [Operation.apply, Address.resolve, hzero, UInt32.add_zero, h.cursor_eq]
  rfl

theorem apply_load_below (h : q.Frame base memory) {a : Nat} (ha : a < size)
    (hs : q.register s = cellOffset a) :
    (Operation.load r (.below .fp s)).apply q = q.set r memory[a].toUInt32 := by
  rw [Operation.apply, Address.resolve, h.fp_eq, hs]
  dsimp only
  rw [← cellAddress, h.word_eq a ha]

theorem apply_store_below (h : q.register .fp = base) {a : Nat} (hs : q.register s = cellOffset a) :
    (Operation.store .always r (.below .fp s)).apply q =
      q.storeWord (cellAddress base a) (q.register r) := by
  rw [Operation.apply, Address.resolve, h, hs]
  rfl

end Processor

/-- What callers rely on when they call a print routine with enough of the stack left: it keeps the
frame base, the stack pointer and the cursor, and all memory from the stack pointer on. -/
structure PrintContract (print : Processor → Processor) : Prop where
  register_eq : ∀ q : Processor, printBytes ≤ (q.register .sp).toNat → ∀ r ∈ [.fp, .sp, .r4],
    (print q).register r = q.register r
  byte_eq : ∀ q : Processor, printBytes ≤ (q.register .sp).toNat → ∀ a,
    (q.register .sp).toNat ≤ a.toNat → (print q).byte a = q.byte a

/-- What a routine that prints a number in decimal leaves behind, as its callers see it: counts and
addresses in the registers that are free to use, and below the stack pointer the registers that were
saved and, below them, the digits. -/
def printDecimal (q : Processor) : Processor :=
  let sp := q.register .sp
  let digits := (toString (q.register .r0).toInt32.toInt).toList.map fun c ↦ c.toNat.toUInt8
  let count : UInt32 := .ofNat digits.length
  let first := sp - 20 - count
  let saved := q.storeAll (sp - 20) [.r4, .r5, .r6, .r7, .lr]
  let q' : Processor :=
    { q with
      flags := .ofDifference (q.register .r0) 0
      byte := fun a ↦
        if sp ≤ a then q.byte a
        else if (a - first).toNat < digits.length then digits.getD (a - first).toNat 0
        else saved.byte a }
  (((q'.set .r0 count).set .r1 first).set .r2 count).set .r3 0

theorem printContract_printDecimal : PrintContract printDecimal where
  register_eq q _ r hr := by
    simp only [List.mem_cons, List.not_mem_nil, or_false] at hr
    rcases hr with rfl | rfl | rfl <;> simp [printDecimal]
  byte_eq q _ a ha := if_pos (UInt32.le_iff_toNat_le.2 ha)

/-- A call of the print routine keeps the machine. -/
theorem PrintContract.mirrors {print : Processor → Processor} (hprint : PrintContract print)
    {size : Nat} {base : UInt32} {m : Machine size} {q : Processor} (hroom : Room size base)
    (h : q.Mirrors base m) : (print q).Mirrors base m := by
  have hbytes := hroom.bytes_le
  have hsp : (q.register .sp).toNat = base.toNat - size * wordBytes := by
    rw [h.sp_eq, hroom.toNat_bottom]
  have hregister := hprint.register_eq q (by omega)
  refine ⟨⟨?_, ?_, fun a ha ↦ ?_⟩, ?_⟩
  · rw [hregister _ (by simp), h.fp_eq]
  · rw [hregister _ (by simp), h.sp_eq]
  · rw [← h.word_eq a ha]
    refine Processor.word_eq_of_byte_eq fun k hk ↦ hprint.byte_eq q (by omega) _ ?_
    have hbase := base.toNat_lt
    rw [UInt32.toNat_add, hroom.toNat_cellAddress ha, hsp]
    simp only [wordBytes, printBytes] at *
    omega
  · rw [hregister _ (by simp), h.cursor_eq]

/-! ### Instructions -/

namespace Image

variable {size : Nat} {base : UInt32} {m : Machine size} {i : Image} {q : Processor}
  {output : List Event} {rest : List Line} {line : Nat}

/-- Loading a cell by way of another register. -/
theorem reaches_loadCell {memory : Vector Cell size} (h : q.Frame base memory)
    {r scratch : Register} (hfp : scratch ≠ .fp) (hsp : scratch ≠ .sp) {a : Nat} (ha : a < size) :
    i.Reaches ⟨loadCell r scratch a ++ rest, q, output⟩
      ⟨rest, (q.set scratch (cellOffset a)).set r memory[a].toUInt32, output⟩ := by
  rw [loadCell, List.append_assoc]
  refine (reaches_loadConstant scratch _).trans (reaches_operation rfl ?_)
  exact Processor.apply_load_below (h.set hfp hsp _) ha (by simp)

section Straight

variable (hq : q.Mirrors base m)

include hq

theorem reaches_moveTo (a : Fin size) :
    ∃ q', i.Reaches ⟨lowerInstruction size line (.moveTo a) ++ rest, q, output⟩ ⟨rest, q', output⟩ ∧
      q'.Mirrors base { m with cursor := a } := by
  have hmoved : (Operation.arithmetic .subtract .always .r4 .fp (.register .r1)).apply
      (q.set .r1 (cellOffset a)) = (q.set .r1 (cellOffset a)).set .r4 (cellAddress base a) := by
    simp [Operation.apply, Operand.value, Arithmetic.apply, hq.fp_eq, cellAddress]
  refine ⟨_, ?_, (hq.set (r := .r1) rfl (cellOffset a)).setCursor a⟩
  rw [lowerInstruction, List.append_assoc]
  exact (reaches_loadConstant .r1 _).trans (reaches_operation rfl hmoved)

variable (hroom : Room size base)

include hroom

theorem reaches_copyTo (a : Fin size) :
    ∃ q', i.Reaches ⟨lowerInstruction size line (.copyTo a) ++ rest, q, output⟩ ⟨rest, q', output⟩ ∧
      q'.Mirrors base { m with memory := m.memory.set a m.current a.isLt } := by
  have hloaded := (hq.set (r := .r0) rfl m.current.toUInt32).set (r := .r1) rfl (cellOffset a)
  refine ⟨_, ?_, hloaded.storeWord hroom a m.current⟩
  rw [lowerInstruction, List.append_assoc, List.cons_append]
  refine (reaches_operation rfl (Processor.apply_load_current hq .r0)).trans ?_
  refine (reaches_loadConstant .r1 _).trans (reaches_operation rfl ?_)
  rw [Processor.apply_store_below (a := a) hloaded.fp_eq (by simp)]
  simp

theorem reaches_print (hprint : PrintContract i.print) :
    ∃ q', i.Reaches ⟨lowerInstruction size line .print ++ rest, q, output⟩
        ⟨rest, q', output ++ [.number m.current]⟩ ∧
      q'.Mirrors base { m with printed := m.printed.push m.current } := by
  have hloaded := hprint.mirrors hroom (hq.set (r := .r0) rfl m.current.toUInt32)
  refine ⟨_, ?_, ⟨hloaded.toFrame, hloaded.cursor_eq⟩⟩
  refine (reaches_operation rfl (Processor.apply_load_current hq .r0)).trans ?_
  have hcall : i.step ⟨.operation (.call (.routine .print)) :: rest,
      q.set .r0 m.current.toUInt32, output⟩ =
      .on ⟨rest, i.print (q.set .r0 m.current.toUInt32), output ++ [.number m.current]⟩ := by
    simp [step, perform, Label.text]
  exact reaches_of_step hcall

theorem reaches_set (v : Cell) :
    ∃ q', i.Reaches ⟨lowerInstruction size line (.set v) ++ rest, q, output⟩ ⟨rest, q', output⟩ ∧
      q'.Mirrors base (m.write v) := by
  have hloaded := hq.set (r := .r0) rfl v.toUInt32
  refine ⟨_, ?_, hloaded.storeWord hroom m.cursor v⟩
  rw [lowerInstruction, List.append_assoc]
  refine (reaches_loadConstant .r0 _).trans (reaches_operation rfl ?_)
  rw [Processor.apply_store_current hloaded]
  simp

theorem reaches_update (u : Update) (v : Cell) :
    ∃ q', i.Reaches ⟨lowerInstruction size line (.update u v) ++ rest, q, output⟩
        ⟨rest, q', output⟩ ∧ q'.Mirrors base (m.write (u.apply m.current v)) := by
  have hoperands := (hq.set (r := .r0) rfl m.current.toUInt32).set (r := .r1) rfl v.toUInt32
  have hresult := hoperands.set (r := .r2) rfl (u.apply m.current v).toUInt32
  have hcombined : (combine u).apply ((q.set .r0 m.current.toUInt32).set .r1 v.toUInt32) =
      ((q.set .r0 m.current.toUInt32).set .r1 v.toUInt32).set .r2
        (u.apply m.current v).toUInt32 := by
    cases u <;> simp [combine, Operation.apply, Operand.value, Arithmetic.apply, Update.apply]
  refine ⟨_, ?_, hresult.storeWord hroom m.cursor _⟩
  rw [lowerInstruction, List.append_assoc, List.cons_append]
  refine (reaches_operation rfl (Processor.apply_load_current hq .r0)).trans ?_
  refine (reaches_loadConstant .r1 _).trans ?_
  refine (reaches_operation (by cases u <;> rfl) hcombined).trans (reaches_operation rfl ?_)
  rw [Processor.apply_store_current hresult]
  simp

end Straight

/-! ### Comparisons -/

theorem step_branch_of_holds {c : Condition} {target : Label} (h : c.holds q.flags = true) :
    i.step ⟨.operation (.branch c target) :: rest, q, output⟩ =
      i.step ⟨Arm.jump target :: rest, q, output⟩ :=
  if_pos h

/-- A branch goes to its label or on to the next line. -/
theorem step_branch {c : Condition} {target : Label} {ahead : List Line}
    (h : seek target.text i.lines = some ahead) :
    i.step ⟨.operation (.branch c target) :: rest, q, output⟩ =
      .on ⟨if c.holds q.flags then ahead else rest, q, output⟩ := by
  split
  next hc => exact (step_branch_of_holds hc).trans (step_jump h)
  next hc => exact if_neg hc

theorem reaches_of_not_holds {c : Condition} {target : Label} (h : ¬c.holds q.flags = true) :
    i.Reaches ⟨.operation (.branch c target) :: rest, q, output⟩ ⟨rest, q, output⟩ :=
  reaches_of_step (if_neg h)

/-- The condition of a comparison holds after comparing the words when the relation holds. -/
theorem condition_holds_iff (r : Relation) (v w : Cell) :
    (condition r).holds (.ofDifference v.toUInt32 w.toUInt32) = true ↔ r.holds v w = true := by
  have hinj : v.toUInt32 = w.toUInt32 ↔ v = w :=
    ⟨fun h ↦ by simpa using congrArg UInt32.toInt32 h, fun h ↦ h ▸ rfl⟩
  cases r with
  | greater => simp [condition, Relation.holds, holds_ofDifference_greater]
  | less => simp [condition, Relation.holds, holds_ofDifference_less]
  | equal => simp [condition, Relation.holds, holds_ofDifference_equal, hinj]
  | unequal => simp [condition, Relation.holds, holds_ofDifference_unequal, hinj]

/-- **A comparison branches to the next line when it holds, and to the line after it when not.** -/
theorem reaches_compare (hq : q.Mirrors base m) (r : Relation) {a b : Nat} (ha : a < size)
    (hb : b < size) :
    ∃ q' c rest', q'.Mirrors base m ∧ c.holds q'.flags = true ∧
      i.Reaches ⟨lowerInstruction size line (.compare r a b) ++ rest, q, output⟩
        ⟨.operation (.branch c (.node (if r.holds m.memory[a] m.memory[b] then line + 1
          else line + 2))) :: rest', q', output⟩ := by
  have hfirst := (hq.set (r := .r2) rfl (cellOffset a)).set (r := .r0) rfl m.memory[a].toUInt32
  have hsecond := (hfirst.set (r := .r3) rfl (cellOffset b)).set (r := .r1) rfl
    m.memory[b].toUInt32
  obtain ⟨q', hq', hflags, hcompared⟩ : ∃ q', q'.Mirrors base m ∧
      q'.flags = Flags.ofDifference m.memory[a].toUInt32 m.memory[b].toUInt32 ∧
      i.Reaches ⟨lowerInstruction size line (.compare r a b) ++ rest, q, output⟩
        ⟨.operation (.branch (condition r) (.node (line + 1))) ::
          Arm.jump (.node (line + 2)) :: rest, q', output⟩ := by
    refine ⟨_, hsecond.setFlags (.ofDifference m.memory[a].toUInt32 m.memory[b].toUInt32), rfl, ?_⟩
    rw [lowerInstruction, List.append_assoc, List.append_assoc]
    refine (reaches_loadCell hq.toFrame (by decide) (by decide) ha).trans ?_
    refine (reaches_loadCell hfirst.toFrame (by decide) (by decide) hb).trans ?_
    exact reaches_operation rfl rfl
  have hcondition := condition_holds_iff r m.memory[a] m.memory[b]
  rw [← hflags] at hcondition
  by_cases h : r.holds m.memory[a] m.memory[b] = true
  · rw [if_pos h]
    exact ⟨q', _, _, hq', hcondition.2 h, hcompared⟩
  · rw [if_neg h]
    exact ⟨q', .always, _, hq', rfl, hcompared.trans (reaches_of_not_holds (mt hcondition.1 h))⟩

end Image

end CursorMachine.Arm
