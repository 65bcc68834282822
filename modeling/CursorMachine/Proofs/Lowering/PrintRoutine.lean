import CursorMachine.Proofs.Lowering.Correctness
import CursorMachine.Proofs.Lowering.Decimals

/-!
# The print routine

Elsewhere the print routine is taken as a whole, by its contract (`PrintContract`). Here its lines
are run, one by one: they put out the first register in decimal and return, with everything restored
that callers keep (`exists_start_prints`), and so meet the contract (`Image.exists_printContract`).

The lines are taken in four parts, between a push and a pop. What holds from part to part is
`Processor.Buffers`: some bytes of the decimal text, its last ones, stand at the end of the buffer,
and nothing above the buffer has changed since the registers were pushed. A pass of the loop puts
one digit in front of the bytes (`Image.reachesWithin_digitCode`). The loop is an induction on the
number that is left, which follows the digits of a number (`digitsOf_of_le`); the sign comes after
it, when the magnitude is used up, from a register that still has the number.

Where bytes are stored is part of the relation by which the parts are joined, `Image.ReachesWithin`,
so it is known of every step of the run and not just of memory at the end.
-/

namespace CursorMachine.Arm

/-! ### Runs that store bytes in one place -/

namespace Execution

/-- The address at which the next line stores a byte, if it stores one. -/
def byteStored? (e : Execution) : Option UInt32 :=
  match e.ahead with
  | .operation (.storeByte c _ place) :: _ =>
    if c.holds e.processor.flags then some (place.resolve e.processor).1 else none
  | _ => none

theorem byteStored?_named (e : Execution) : e.named.byteStored? = e.byteStored? := by
  obtain ⟨- | ⟨line, ahead⟩, q, output⟩ := e
  · rfl
  · cases line with
    | operation o => cases o <;> rfl
    | directive d => cases d <;> rfl
    | _ => rfl

end Execution

namespace Image

/-- An execution goes on to another one. On the way, bytes are stored at addresses of one kind
only. -/
inductive ReachesWithin (i : Image) (kind : UInt32 → Prop) : Execution → Execution → Prop
  | refl {e : Execution} : ReachesWithin i kind e e
  | head {e e' e'' : Execution} (hstores : ∀ a, e.byteStored? = some a → kind a)
      (hstep : i.step e = .on e') (hreaches : ReachesWithin i kind e' e'') :
      ReachesWithin i kind e e''

section ReachesWithin

variable {i : Image} {kind : UInt32 → Prop} {e e' e'' : Execution} {q q' : Processor}
  {output : List Event} {rest : List Line}

theorem ReachesWithin.trans (h : i.ReachesWithin kind e e') (h' : i.ReachesWithin kind e' e'') :
    i.ReachesWithin kind e e'' := by
  induction h with
  | refl => exact h'
  | head hstores hstep _ ih => exact .head hstores hstep (ih h')

theorem reachesWithin_of_step (hstores : e.byteStored? = none) (hstep : i.step e = .on e') :
    i.ReachesWithin kind e e' :=
  .head (fun _ ha ↦ absurd (hstores.symm.trans ha) nofun) hstep .refl

theorem reachesWithin_operation {o : Operation} (ho : o.isPlain = true)
    (hstores : Execution.byteStored? ⟨.operation o :: rest, q, output⟩ = none)
    (h : o.apply q = q') :
    i.ReachesWithin kind ⟨.operation o :: rest, q, output⟩ ⟨rest, q', output⟩ :=
  reachesWithin_of_step hstores (step_operation ho h)

/-- A run that returns where it leads stores bytes at addresses of one kind only. -/
theorem ReachesWithin.returns (h : i.ReachesWithin kind e e') (hlast : e'.byteStored? = none)
    (hback : i.step e' = .back e'') :
    (∃ n, i.run n e = .back e'') ∧
      ∀ n e₁ a, i.run n e = .on e₁ → e₁.byteStored? = some a → kind a := by
  induction h with
  | refl =>
    refine ⟨⟨1, by rw [run, hback]⟩, fun n e₁ a hrun ha ↦ ?_⟩
    cases n with
    | zero =>
      cases hrun
      rw [hlast] at ha
      cases ha
    | succ n =>
      rw [run, hback] at hrun
      cases hrun
  | head hstores hstep _ ih =>
    obtain ⟨⟨n, hn⟩, hrest⟩ := ih hlast hback
    refine ⟨⟨n + 1, by rw [run, hstep]; exact hn⟩, fun n e₁ a hrun ha ↦ ?_⟩
    cases n with
    | zero =>
      cases hrun
      exact hstores a ha
    | succ n =>
      rw [run, hstep] at hrun
      exact hrest n e₁ a hrun ha

end ReachesWithin

end Image

/-! ### The buffer -/

namespace Processor

/-- The address of a byte in the buffer, which lies below the stack pointer. -/
def InBuffer (q : Processor) (a : UInt32) : Prop :=
  q.register .sp - 16 ≤ a ∧ a < q.register .sp

/-- The processor is at work on the number that `start` has in its first register, with bytes at the
end of the buffer below the stack pointer that `start` has. Above the buffer everything is as it was
at the start. -/
structure Buffers (start : Processor) (bytes : List UInt8) (q : Processor) : Prop where
  sp_eq : q.register .sp = start.register .sp - 16
  fp_eq : q.register .fp = start.register .fp
  end_eq : q.register .r5 = start.register .sp
  first_eq : q.register .r6 = start.register .sp - .ofNat bytes.length
  number_eq : q.register .r7 = start.register .r0
  bytes_eq : (List.range bytes.length).map (fun k ↦ q.byte (q.register .r6 + .ofNat k)) = bytes
  byte_eq : ∀ a, start.register .sp ≤ a → q.byte a = start.byte a

variable {start q : Processor} {bytes : List UInt8}

theorem Buffers.set (h : start.Buffers bytes q) {r : Register} (hr : r.isFree = true) (v : UInt32) :
    start.Buffers bytes (q.set r v) := by
  have hne : ∀ s : Register, s.isFree = false → (q.set r v).register s = q.register s := by
    intro s hs
    rw [register_set, if_neg]
    rintro rfl
    rw [hr] at hs
    cases hs
  exact
    { sp_eq := (hne .sp rfl).trans h.sp_eq
      fp_eq := (hne .fp rfl).trans h.fp_eq
      end_eq := (hne .r5 rfl).trans h.end_eq
      first_eq := (hne .r6 rfl).trans h.first_eq
      number_eq := (hne .r7 rfl).trans h.number_eq
      bytes_eq := by
        rw [hne .r6 rfl]
        exact h.bytes_eq
      byte_eq := h.byte_eq }

theorem Buffers.setFlags (h : start.Buffers bytes q) (f : Flags) :
    start.Buffers bytes { q with flags := f } :=
  ⟨h.sp_eq, h.fp_eq, h.end_eq, h.first_eq, h.number_eq, h.bytes_eq, h.byte_eq⟩

theorem toNat_front (hroom : 16 ≤ (start.register .sp).toNat) (hlength : bytes.length < 16) :
    (start.register .sp - .ofNat (bytes.length + 1)).toNat =
      (start.register .sp).toNat - (bytes.length + 1) := by
  have hsp := (start.register .sp).toNat_lt
  rw [UInt32.toNat_sub, UInt32.toNat_ofNat']
  omega

section Front

variable (h : start.Buffers bytes q)

include h

/-- The place in front of the bytes. -/
theorem Buffers.front_eq :
    q.register .r6 + .ofInt (-1) = start.register .sp - .ofNat (bytes.length + 1) := by
  have hback : (UInt32.ofInt (-1)).toNat = 2 ^ 32 - 1 := rfl
  apply UInt32.toNat.inj
  rw [h.first_eq, UInt32.toNat_add, UInt32.toNat_sub, UInt32.toNat_sub, hback, UInt32.toNat_ofNat',
    UInt32.toNat_ofNat']
  omega

/-- Stepping over the byte at the front leads to the bytes that were there before. -/
theorem Buffers.front_add (k : Nat) :
    start.register .sp - .ofNat (bytes.length + 1) + .ofNat (k + 1) =
      q.register .r6 + .ofNat k := by
  apply UInt32.toNat.inj
  rw [h.first_eq, UInt32.toNat_add, UInt32.toNat_add, UInt32.toNat_sub, UInt32.toNat_sub,
    UInt32.toNat_ofNat', UInt32.toNat_ofNat', UInt32.toNat_ofNat', UInt32.toNat_ofNat']
  omega

variable (hroom : 16 ≤ (start.register .sp).toNat) (hlength : bytes.length < 16)

include hroom hlength

theorem Buffers.inBuffer_front : start.InBuffer (q.register .r6 + .ofInt (-1)) := by
  have hsp := (start.register .sp).toNat_lt
  have hsixteen : (16 : UInt32).toNat = 16 := rfl
  rw [h.front_eq, InBuffer, UInt32.le_iff_toNat_le, UInt32.lt_iff_toNat_lt,
    toNat_front hroom hlength, UInt32.toNat_sub, hsixteen]
  omega

/-- **A byte is stored in front of the others.** -/
theorem Buffers.storeByte (v : UInt32) :
    start.Buffers (v.toUInt8 :: bytes)
      ((q.set .r6 (q.register .r6 + .ofInt (-1))).storeByte (q.register .r6 + .ofInt (-1)) v) := by
  have hfront := toNat_front hroom hlength
  rw [h.front_eq]
  generalize ha : start.register .sp - .ofNat (bytes.length + 1) = a at hfront ⊢
  have hold : ∀ b, b ≠ a → ((q.set .r6 a).storeByte a v).byte b = q.byte b := by
    intro b hb
    rw [byte_storeByte, if_neg hb, byte_set]
  have hsix : ((q.set .r6 a).storeByte a v).register .r6 = a := by simp
  refine
    { sp_eq := by simp [h.sp_eq]
      fp_eq := by simp [h.fp_eq]
      end_eq := by simp [h.end_eq]
      first_eq := hsix.trans ha.symm
      number_eq := by simp [h.number_eq]
      bytes_eq := ?_
      byte_eq := fun b hb ↦ ?_ }
  · have hzero : a + UInt32.ofNat 0 = a := UInt32.add_zero a
    rw [hsix, List.length_cons, List.range_succ_eq_map, List.map_cons, List.map_map, hzero,
      byte_storeByte, if_pos rfl]
    congr 1
    refine (List.map_congr_left fun k hk ↦ ?_).trans h.bytes_eq
    rw [List.mem_range] at hk
    have hne : a + UInt32.ofNat (k + 1) ≠ a := by
      intro heq
      have hnat := congrArg UInt32.toNat heq
      rw [UInt32.toNat_add, UInt32.toNat_ofNat'] at hnat
      omega
    exact (hold _ hne).trans (by rw [← ha, h.front_add])
  · refine (hold b ?_).trans (h.byte_eq b hb)
    rintro rfl
    rw [UInt32.le_iff_toNat_le] at hb
    omega

end Front

end Processor

/-! ### Returning -/

/-- The registers that the routine pushes. -/
def pushedRegisters : List Register :=
  [.r4, .r5, .r6, .r7, .lr]

/-- The registers that the routine pops: those that it pushed, but the return address goes where it
says what comes next. -/
def poppedRegisters : List Register :=
  [.r4, .r5, .r6, .r7, .pc]

namespace Processor

/-- The processor as a routine leaves it that was called with `q`: the registers that callers keep
are as they were, and so is everything from the stack pointer on; what comes next is at the return
address. -/
structure Restored (q q' : Processor) : Prop where
  register_eq : ∀ r ∈ [.r4, .r5, .r6, .r7, .fp, .sp], q'.register r = q.register r
  pc_eq : q'.register .pc = q.register .lr
  byte_eq : ∀ a, q.register .sp ≤ a → q'.byte a = q.byte a

/-- Popping restores what was pushed. -/
theorem restored_pop {q q' : Processor}
    (hroom : 4 * pushedRegisters.length ≤ (q.register .sp).toNat)
    (hsp : q'.register .sp = (q.push pushedRegisters).register .sp)
    (hfp : q'.register .fp = q.register .fp)
    (hbyte : ∀ a, (q.push pushedRegisters).register .sp ≤ a →
      q'.byte a = (q.push pushedRegisters).byte a) :
    q.Restored (q'.pop poppedRegisters) := by
  have hlength : poppedRegisters.length = pushedRegisters.length := rfl
  have hpopped : ∀ k (hk : k < 5),
      (q'.pop poppedRegisters).register poppedRegisters[k] = q.register pushedRegisters[k] :=
    fun k hk ↦ register_pop hsp hlength hroom hbyte (by decide) (by decide) hk hk
  have hbottom := toNat_register_push_sp hroom
  refine
    { register_eq := fun r hr ↦ ?_
      pc_eq := hpopped 4 (by decide)
      byte_eq := fun a ha ↦ ?_ }
  · simp only [List.mem_cons, List.not_mem_nil, or_false] at hr
    rcases hr with rfl | rfl | rfl | rfl | rfl | rfl
    · exact hpopped 0 (by decide)
    · exact hpopped 1 (by decide)
    · exact hpopped 2 (by decide)
    · exact hpopped 3 (by decide)
    · exact (register_loadAll_of_not_mem q' _ (by decide) (by decide)).trans hfp
    · exact register_pop_sp hsp rfl
  · rw [pop, byte_loadAll, hbyte a, byte_push hroom ha]
    rw [UInt32.le_iff_toNat_le] at ha ⊢
    omega

end Processor

/-! ### The code -/

/-- The code that makes room for the buffer and takes the magnitude of the number. -/
def openCode : List Line :=
  [.operation (.arithmetic .subtract .always .sp .sp (.immediate 16)),
    .operation (.arithmetic .add .always .r5 .sp (.immediate 16)),
    .operation (.move .always .r6 (.register .r5)),
    .operation (.move .always .r7 (.register .r0)),
    .operation (.compare .r0 (.immediate 0)),
    .operation (.arithmetic .reverseSubtract .less .r0 .r0 (.immediate 0))]

/-- The code that takes a tenth of a number, and the digit that is left. -/
def tenthCode : List Line :=
  loadConstant .r3 0xCCCCCCCD ++
    [.operation (.multiplyLong .r2 .r3 .r0 .r3),
      .operation (.shiftRight .r3 .r3 3),
      .operation (.arithmetic .add .always .r2 .r3 (.shifted .r3 2)),
      .operation (.arithmetic .subtract .always .r2 .r0 (.shifted .r2 1)),
      .operation (.arithmetic .add .always .r2 .r2 (.immediate 48))]

/-- The code that stores a byte in front of the others. -/
def storeCode (c : Condition) : Line :=
  .operation (.storeByte c .r2 (.preIndexed .r6 (-1)))

/-- The code after the label of the loop. -/
def digitCode : List Line :=
  tenthCode ++
    [storeCode .always, .operation (.moveFlags .r0 .r3),
      .operation (.branch .unequal (.routine .printDigit))]

/-- The code that stores the sign. -/
def signCode : List Line :=
  [.operation (.compare .r7 (.immediate 0)), .operation (.move .less .r2 (.immediate 45)),
    storeCode .less]

/-- The code that puts the bytes out. -/
def writeCode : List Line :=
  [.operation (.move .always .r0 (.immediate 1)), .operation (.move .always .r1 (.register .r6)),
    .operation (.arithmetic .subtract .always .r2 .r5 (.register .r6)),
    .operation (.move .always .r7 (.immediate 4)), .operation .service,
    .operation (.arithmetic .add .always .sp .sp (.immediate 16))]

/-- The code after the label of the loop, to the end of the routine. -/
def loopCode : List Line :=
  digitCode ++ (signCode ++ (writeCode ++ [.operation (.pop .r4 .r7 .pc)]))

/-- The code after the label of the routine. -/
def printCode : List Line :=
  .operation (.push .r4 .r7 .lr) :: (openCode ++ .label (.routine .printDigit) :: loopCode)

theorem printRoutine_eq (verbose : Bool) :
    printRoutine verbose =
      remark verbose "print r0 in decimal to stdout" ++ .label (.routine .print) :: printCode := by
  simp [printRoutine, printCode, openCode, loopCode, digitCode, tenthCode, storeCode, signCode,
    writeCode]

namespace Image

variable {start q : Processor} {bytes : List UInt8} {loop after : List Line}

section Parts

variable (i : Image) (output : List Event) (rest : List Line)

variable (start) in
/-- Above the buffer nothing has changed yet, and the first register has the magnitude. -/
theorem reachesWithin_openCode :
    ∃ q', start.Buffers [] q' ∧
      (q'.register .r0).toNat = (start.register .r0).toInt32.toInt.natAbs ∧
      i.ReachesWithin start.InBuffer ⟨openCode ++ rest, start, output⟩ ⟨rest, q', output⟩ := by
  let x := start.register .r0
  let top := start.register .sp
  let q₁ : Processor := (((start.set .sp (top - 16)).set .r5 top).set .r6 top).set .r7 x
  let q₂ : Processor := { q₁ with flags := .ofDifference x 0 }
  have hreaches : i.ReachesWithin start.InBuffer ⟨openCode ++ rest, start, output⟩
      ⟨.operation (.arithmetic .reverseSubtract .less .r0 .r0 (.immediate 0)) :: rest, q₂,
        output⟩ := by
    have htop : (Operation.arithmetic .add .always .r5 .sp (.immediate 16)).apply
        (start.set .sp (top - 16)) = (start.set .sp (top - 16)).set .r5 top := by
      simp [Operation.apply, Operand.value, Arithmetic.apply]
    have hfirst : (Operation.move .always .r6 (.register .r5)).apply
        ((start.set .sp (top - 16)).set .r5 top) =
        ((start.set .sp (top - 16)).set .r5 top).set .r6 top := by
      simp [Operation.apply, Operand.value]
    have hnumber : (Operation.move .always .r7 (.register .r0)).apply
        (((start.set .sp (top - 16)).set .r5 top).set .r6 top) = q₁ := by
      simp [Operation.apply, Operand.value, q₁, x]
    have hcompared : (Operation.compare .r0 (.immediate 0)).apply q₁ = q₂ := by
      simp [Operation.apply, Operand.value, q₁, q₂, x]
    refine (reachesWithin_operation rfl rfl rfl).trans ?_
    refine (reachesWithin_operation rfl rfl htop).trans ?_
    refine (reachesWithin_operation rfl rfl hfirst).trans ?_
    exact (reachesWithin_operation rfl rfl hnumber).trans
      (reachesWithin_operation rfl rfl hcompared)
  have hbuffers : start.Buffers [] q₂ :=
    { sp_eq := by simp [q₂, q₁, top]
      fp_eq := by simp [q₂, q₁]
      end_eq := by simp [q₂, q₁, top]
      first_eq := by simp [q₂, q₁, top]
      number_eq := by simp [q₂, q₁, x]
      bytes_eq := rfl
      byte_eq := fun _ _ ↦ rfl }
  have hzero : q₂.register .r0 = x := by simp [q₂, q₁, x]
  have hmagnitude := toNat_magnitude x
  by_cases hless : x.toInt32 < 0
  · rw [if_pos hless] at hmagnitude
    have hnegated : (Operation.arithmetic .reverseSubtract .less .r0 .r0 (.immediate 0)).apply q₂ =
        q₂.set .r0 (0 - x) := by
      rw [Operation.apply, if_pos ((holds_ofDifference_less x 0).2 hless), hzero]
      rfl
    exact ⟨_, hbuffers.set (r := .r0) rfl (0 - x), by simpa using hmagnitude,
      hreaches.trans (reachesWithin_operation rfl rfl hnegated)⟩
  · rw [if_neg hless] at hmagnitude
    have hkept : (Operation.arithmetic .reverseSubtract .less .r0 .r0 (.immediate 0)).apply q₂ =
        q₂ := by
      rw [Operation.apply, if_neg (mt (holds_ofDifference_less x 0).1 hless)]
    exact ⟨q₂, hbuffers, hzero ▸ hmagnitude,
      hreaches.trans (reachesWithin_operation rfl rfl hkept)⟩

/-- The tenth of a number, and its last digit. -/
theorem reachesWithin_tenthCode (h : start.Buffers bytes q) :
    ∃ q', start.Buffers bytes q' ∧
      (q'.register .r3).toNat = (q.register .r0).toNat / 10 ∧
      (q'.register .r2).toUInt8 = .ofNat (48 + (q.register .r0).toNat % 10) ∧
      i.ReachesWithin start.InBuffer ⟨tenthCode ++ rest, q, output⟩ ⟨rest, q', output⟩ := by
  let x := q.register .r0
  let product := x.toNat * (0xCCCCCCCD : UInt32).toNat
  let t : UInt32 := .ofNat (product / 2 ^ 32) >>> (3 : UInt32)
  let d : UInt32 := x - (t + t <<< (2 : UInt32)) <<< (1 : UInt32) + 48
  have hconstant : loadConstant .r3 0xCCCCCCCD =
      [.operation (.moveLow .r3 0xCCCD), .operation (.moveHigh .r3 0xCCCC)] := by decide
  have ht : t.toNat = x.toNat / 10 := toNat_tenth x
  have hd : d.toNat = 48 + x.toNat % 10 := toNat_remainder ht
  have hbyte : d.toUInt8 = .ofNat (48 + x.toNat % 10) := by
    rw [← hd]
    exact (UInt8.ofNat_uInt32ToNat d).symm
  let q₁ := q.set .r3 0xCCCCCCCD
  let q₂ := (q₁.set .r2 (.ofNat product)).set .r3 (.ofNat (product / 2 ^ 32))
  let q₃ := q₂.set .r3 t
  let q₄ := q₃.set .r2 (t + t <<< (2 : UInt32))
  let q₅ := q₄.set .r2 (x - (t + t <<< (2 : UInt32)) <<< (1 : UInt32))
  have hloaded : (Operation.moveHigh .r3 0xCCCC).apply ((Operation.moveLow .r3 0xCCCD).apply q) =
      q₁ := by
    have hvalue : (0xCCCD : UInt32) &&& (0xFFFF : UInt32) &&& (0xFFFF : UInt32) |||
        (0xCCCC : UInt32) <<< (16 : UInt32) = 0xCCCCCCCD := by decide
    simp [Operation.apply, q₁, hvalue]
  have hproduct : (Operation.multiplyLong .r2 .r3 .r0 .r3).apply q₁ = q₂ := by
    simp [Operation.apply, q₁, q₂, product, x]
  have htenth : (Operation.shiftRight .r3 .r3 3).apply q₂ = q₃ := by
    simp [Operation.apply, q₂, q₃, t]
  have hfive : (Operation.arithmetic .add .always .r2 .r3 (.shifted .r3 2)).apply q₃ = q₄ := by
    simp [Operation.apply, Operand.value, Arithmetic.apply, q₃, q₄]
  have hrest : (Operation.arithmetic .subtract .always .r2 .r0 (.shifted .r2 1)).apply q₄ = q₅ := by
    simp [Operation.apply, Operand.value, Arithmetic.apply, q₅, q₄, q₃, q₂, q₁, x]
  have hdigit : (Operation.arithmetic .add .always .r2 .r2 (.immediate 48)).apply q₅ =
      q₅.set .r2 d := by
    simp [Operation.apply, Operand.value, Arithmetic.apply, q₅, d]
  have hq₅ : start.Buffers bytes q₅ :=
    (((((h.set (r := .r3) rfl _).set (r := .r2) rfl _).set (r := .r3) rfl _).set (r := .r3) rfl
      _).set (r := .r2) rfl _).set (r := .r2) rfl _
  refine ⟨q₅.set .r2 d, hq₅.set (r := .r2) rfl d, ?_, ?_, ?_⟩
  · rw [← ht]
    simp [q₅, q₄, q₃]
  · rw [← hbyte]
    simp
  · rw [tenthCode, hconstant]
    refine (reachesWithin_operation rfl rfl rfl).trans ?_
    refine (reachesWithin_operation rfl rfl hloaded).trans ?_
    refine (reachesWithin_operation rfl rfl hproduct).trans ?_
    refine (reachesWithin_operation rfl rfl htenth).trans ?_
    refine (reachesWithin_operation rfl rfl hfive).trans ?_
    exact (reachesWithin_operation rfl rfl hrest).trans (reachesWithin_operation rfl rfl hdigit)

/-- A byte is stored when the condition holds. -/
theorem reachesWithin_storeCode (h : start.Buffers bytes q)
    (hroom : 16 ≤ (start.register .sp).toNat) (hlength : bytes.length < 16) {c : Condition}
    (hc : c.holds q.flags = true) :
    ∃ q', start.Buffers ((q.register .r2).toUInt8 :: bytes) q' ∧
      (∀ r : Register, r.isFree = true → q'.register r = q.register r) ∧
      i.ReachesWithin start.InBuffer ⟨storeCode c :: rest, q, output⟩ ⟨rest, q', output⟩ := by
  refine ⟨_, h.storeByte hroom hlength (q.register .r2), ?_, ?_⟩
  · intro r hr
    rw [Processor.register_storeByte, Processor.register_set, if_neg]
    rintro rfl
    cases hr
  · refine .head (fun a ha ↦ ?_) (step_operation rfl ?_) .refl
    · rw [Execution.byteStored?, storeCode] at ha
      dsimp only at ha
      rw [if_pos hc] at ha
      exact Option.some.inj ha ▸ h.inBuffer_front hroom hlength
    · rw [Operation.apply, if_pos hc]
      rfl

/-- One digit is stored. The code goes around the loop, or past it when no digits are left. -/
theorem reachesWithin_digitCode (h : start.Buffers bytes q)
    (hroom : 16 ≤ (start.register .sp).toNat) (hlength : bytes.length < 16)
    (hloop : seek (Label.routine .printDigit).text i.lines = some loop) :
    ∃ q', start.Buffers (.ofNat (48 + (q.register .r0).toNat % 10) :: bytes) q' ∧
      (q'.register .r0).toNat = (q.register .r0).toNat / 10 ∧
      i.ReachesWithin start.InBuffer ⟨digitCode ++ rest, q, output⟩
        ⟨if (q.register .r0).toNat < 10 then rest else loop, q', output⟩ := by
  let last : List Line :=
    .operation (.moveFlags .r0 .r3) :: .operation (.branch .unequal (.routine .printDigit)) :: rest
  obtain ⟨q₁, hq₁, htenth, hdigit, hreaches₁⟩ :=
    reachesWithin_tenthCode i output (storeCode .always :: last) h
  obtain ⟨q₂, hq₂, hkept, hreaches₂⟩ :=
    reachesWithin_storeCode i output last hq₁ hroom hlength (c := .always) rfl
  rw [hdigit] at hq₂
  let t := q₂.register .r3
  have ht : t.toNat = (q.register .r0).toNat / 10 := by rw [← htenth, ← hkept .r3 rfl]
  let q₃ : Processor :=
    { q₂.set .r0 t with flags := { q₂.flags with negative := t.toInt32 < 0, zero := t = 0 } }
  have hunequal : Condition.unequal.holds q₃.flags = true ↔ ¬(q.register .r0).toNat < 10 := by
    have hzero : t = 0 ↔ t.toNat = 0 := by
      rw [← UInt32.toNat_inj]
      rfl
    simp only [Condition.holds, q₃, Bool.not_eq_true', decide_eq_false_iff_not, hzero, ht]
    omega
  have hbranch : i.ReachesWithin start.InBuffer
      ⟨.operation (.branch .unequal (.routine .printDigit)) :: rest, q₃, output⟩ _ :=
    reachesWithin_of_step rfl (step_branch hloop)
  refine ⟨q₃, (hq₂.set (r := .r0) rfl t).setFlags _, by simpa [q₃] using ht, ?_⟩
  have hcode : digitCode ++ rest = tenthCode ++ (storeCode .always :: last) := by
    rw [digitCode, List.append_assoc]
    rfl
  rw [hcode]
  refine hreaches₁.trans (hreaches₂.trans ((reachesWithin_operation rfl rfl rfl).trans ?_))
  by_cases hlt : (q.register .r0).toNat < 10
  · rw [if_neg (mt hunequal.1 (not_not.2 hlt))] at hbranch
    rwa [if_pos hlt]
  · rw [if_pos (hunequal.2 hlt)] at hbranch
    rwa [if_neg hlt]

/-- **The loop ends with all digits stored.** -/
theorem reachesWithin_loop (h : start.Buffers bytes q) (hroom : 16 ≤ (start.register .sp).toNat)
    (hlength : (digitsOf (q.register .r0).toNat).length + bytes.length ≤ 16)
    (hloop : seek (Label.routine .printDigit).text i.lines =
      some (.label (.routine .printDigit) :: (digitCode ++ rest))) :
    ∃ q', start.Buffers (digitsOf (q.register .r0).toNat ++ bytes) q' ∧
      i.ReachesWithin start.InBuffer
        ⟨.label (.routine .printDigit) :: (digitCode ++ rest), q, output⟩ ⟨rest, q', output⟩ := by
  -- The number that is left becomes less with every pass, and its digits are put before the bytes.
  induction hn : (q.register .r0).toNat using Nat.strong_induction_on generalizing q bytes with
  | h n ih =>
    subst hn
    have hshort : bytes.length < 16 := by
      have hpos := length_digitsOf_pos (q.register .r0).toNat
      omega
    obtain ⟨q₁, hq₁, htenth, hreaches⟩ := reachesWithin_digitCode i output rest h hroom hshort hloop
    have hlabel : i.ReachesWithin start.InBuffer
        ⟨.label (.routine .printDigit) :: (digitCode ++ rest), q, output⟩
        ⟨digitCode ++ rest, q, output⟩ := reachesWithin_of_step rfl rfl
    by_cases hlt : (q.register .r0).toNat < 10
    · rw [if_pos hlt] at hreaches
      rw [Nat.mod_eq_of_lt hlt] at hq₁
      rw [digitsOf_of_lt hlt]
      exact ⟨q₁, hq₁, hlabel.trans hreaches⟩
    · rw [if_neg hlt] at hreaches
      rw [digitsOf_of_le (Nat.not_lt.1 hlt)] at hlength ⊢
      rw [List.length_append, List.length_singleton] at hlength
      obtain ⟨q₂, hq₂, hrest⟩ := ih ((q.register .r0).toNat / 10) (by omega) hq₁
        (by rw [htenth, List.length_cons]; omega) htenth
      rw [List.append_assoc]
      exact ⟨q₂, hq₂, hlabel.trans (hreaches.trans hrest)⟩

/-- The sign is stored in front of the digits. -/
theorem reachesWithin_signCode (h : start.Buffers bytes q)
    (hroom : 16 ≤ (start.register .sp).toNat) (hlength : bytes.length < 16) :
    ∃ q', start.Buffers ((if (start.register .r0).toInt32 < 0 then [45] else []) ++ bytes) q' ∧
      i.ReachesWithin start.InBuffer ⟨signCode ++ rest, q, output⟩ ⟨rest, q', output⟩ := by
  let x := start.register .r0
  let q₁ : Processor := { q with flags := .ofDifference x 0 }
  have hq₁ : start.Buffers bytes q₁ := h.setFlags _
  have hcompared : (Operation.compare .r7 (.immediate 0)).apply q = q₁ := by
    rw [Operation.apply, h.number_eq]
    rfl
  have hreaches : i.ReachesWithin start.InBuffer ⟨signCode ++ rest, q, output⟩
      ⟨.operation (.move .less .r2 (.immediate 45)) :: storeCode .less :: rest, q₁, output⟩ :=
    reachesWithin_operation rfl rfl hcompared
  by_cases hless : x.toInt32 < 0
  · have hholds : Condition.less.holds q₁.flags = true := (holds_ofDifference_less x 0).2 hless
    have hmoved : (Operation.move .less .r2 (.immediate 45)).apply q₁ = q₁.set .r2 45 := by
      rw [Operation.apply, if_pos hholds]
      rfl
    obtain ⟨q₂, hq₂, -, hstored⟩ := reachesWithin_storeCode i output rest
      (hq₁.set (r := .r2) rfl 45) hroom hlength (c := .less) hholds
    rw [Processor.register_set, if_pos rfl] at hq₂
    rw [if_pos hless]
    exact ⟨q₂, hq₂, hreaches.trans ((reachesWithin_operation rfl rfl hmoved).trans hstored)⟩
  · have hholds : ¬Condition.less.holds q₁.flags = true :=
      mt (holds_ofDifference_less x 0).1 hless
    have hkept : (Operation.move .less .r2 (.immediate 45)).apply q₁ = q₁ := if_neg hholds
    have hkept' : (Operation.storeByte .less .r2 (.preIndexed .r6 (-1))).apply q₁ = q₁ :=
      if_neg hholds
    have hnone : Execution.byteStored? ⟨storeCode .less :: rest, q₁, output⟩ = none :=
      if_neg hholds
    rw [if_neg hless]
    exact ⟨q₁, hq₁, hreaches.trans ((reachesWithin_operation rfl rfl hkept).trans
      (reachesWithin_operation rfl hnone hkept'))⟩

/-- Writing puts out as many bytes as asked for. -/
theorem step_write (h : q.register .r7 = Execution.writeService) :
    i.step ⟨.operation .service :: rest, q, output⟩ =
      .on ⟨rest, q.set .r0 (q.register .r2), output ++ [.bytes
        ((List.range (q.register .r2).toNat).map fun k ↦ q.byte (q.register .r1 + .ofNat k))]⟩ := by
  have hstep : i.step ⟨.operation .service :: rest, q, output⟩ =
      Execution.serve ⟨rest, q, output⟩ := rfl
  have hne : q.register .r7 ≠ Execution.exitService := by
    rw [h]
    decide
  rw [hstep, Execution.serve, if_neg hne, if_pos h]

/-- The bytes in the buffer are put out, and the buffer is given up. -/
theorem reachesWithin_writeCode (h : start.Buffers bytes q) (hlength : bytes.length ≤ 16) :
    ∃ q', q'.register .sp = start.register .sp ∧ q'.register .fp = start.register .fp ∧
      (∀ a, start.register .sp ≤ a → q'.byte a = start.byte a) ∧
      i.ReachesWithin start.InBuffer ⟨writeCode ++ rest, q, output⟩
        ⟨rest, q', output ++ [.bytes bytes]⟩ := by
  let first := q.register .r6
  let count : UInt32 := .ofNat bytes.length
  have hfirstEq : first = start.register .sp - count := h.first_eq
  have hcount : q.register .r5 - first = count := by
    have hsp := (start.register .sp).toNat_lt
    apply UInt32.toNat.inj
    rw [h.end_eq, UInt32.toNat_sub, hfirstEq, UInt32.toNat_sub, UInt32.toNat_ofNat']
    omega
  have hcountNat : count.toNat = bytes.length := by
    rw [UInt32.toNat_ofNat']
    omega
  let q₁ : Processor := (q.set .r0 1).set .r1 first
  let q₂ : Processor := (q₁.set .r2 count).set .r7 4
  let q₃ : Processor := (q₂.set .r0 count).set .sp (start.register .sp)
  have hfirst : (Operation.move .always .r1 (.register .r6)).apply (q.set .r0 1) = q₁ := by
    simp [Operation.apply, Operand.value, q₁, first]
  have hlast : (Operation.arithmetic .subtract .always .r2 .r5 (.register .r6)).apply q₁ =
      q₁.set .r2 count := by
    rw [← hcount]
    simp [Operation.apply, Operand.value, Arithmetic.apply, q₁, first]
  have hserved : i.step ⟨.operation .service ::
      .operation (.arithmetic .add .always .sp .sp (.immediate 16)) :: rest, q₂, output⟩ =
      .on ⟨.operation (.arithmetic .add .always .sp .sp (.immediate 16)) :: rest, q₂.set .r0 count,
        output ++ [.bytes bytes]⟩ := by
    have hr1 : q₂.register .r1 = first := by simp [q₂, q₁]
    have hr2 : q₂.register .r2 = count := by simp [q₂]
    have hwritten : (List.range count.toNat).map (fun k ↦ q₂.byte (first + .ofNat k)) = bytes := by
      rw [hcountNat]
      exact h.bytes_eq
    rw [step_write i output _ (by simp [q₂, Execution.writeService]), hr1, hr2, hwritten]
  have hgiven : (Operation.arithmetic .add .always .sp .sp (.immediate 16)).apply
      (q₂.set .r0 count) = q₃ := by
    simp [Operation.apply, Operand.value, Arithmetic.apply, q₃, q₂, q₁, h.sp_eq]
  refine ⟨q₃, by simp [q₃], by simp [q₃, q₂, q₁, h.fp_eq], h.byte_eq, ?_⟩
  refine (reachesWithin_operation rfl rfl rfl).trans ?_
  refine (reachesWithin_operation rfl rfl hfirst).trans ?_
  refine (reachesWithin_operation rfl rfl hlast).trans ?_
  refine (reachesWithin_operation rfl rfl rfl).trans ?_
  exact (reachesWithin_of_step rfl hserved).trans (reachesWithin_operation rfl rfl hgiven)

end Parts

variable {i : Image}

/-- **Between pushing and popping, the number is put out in decimal**, and nothing above the buffer
changes. -/
theorem reachesWithin_printing (output : List Event) (hroom : 16 ≤ (start.register .sp).toNat)
    (hloop : seek (Label.routine .printDigit).text i.lines =
      some (.label (.routine .printDigit) :: (loopCode ++ after))) :
    ∃ q', q'.register .sp = start.register .sp ∧ q'.register .fp = start.register .fp ∧
      (∀ a, start.register .sp ≤ a → q'.byte a = start.byte a) ∧
      i.ReachesWithin start.InBuffer
        ⟨openCode ++ .label (.routine .printDigit) :: (loopCode ++ after), start, output⟩
        ⟨.operation (.pop .r4 .r7 .pc) :: after, q', output ++
          [.bytes (bytesOf (toString (start.register .r0).toInt32.toInt))]⟩ := by
  let number := (start.register .r0).toInt32.toInt
  let last : List Line := .operation (.pop .r4 .r7 .pc) :: after
  have hcode : loopCode ++ after = digitCode ++ (signCode ++ (writeCode ++ last)) := by
    simp only [last, loopCode, List.append_assoc, List.cons_append, List.nil_append]
  rw [hcode] at hloop ⊢
  obtain ⟨q₁, hq₁, hmagnitude, hopen⟩ := reachesWithin_openCode start i output
    (.label (.routine .printDigit) :: (digitCode ++ (signCode ++ (writeCode ++ last))))
  -- Ten digits are enough for a word, and leave room for the sign.
  have hdigits : (digitsOf number.natAbs).length ≤ 10 :=
    length_digitsOf_le (by decide)
      (hmagnitude ▸ Nat.lt_trans (q₁.register .r0).toNat_lt (by decide))
  obtain ⟨q₂, hq₂, hloop⟩ := reachesWithin_loop i output _ hq₁ hroom
    (by rw [hmagnitude]; exact Nat.le_trans hdigits (by decide)) hloop
  rw [hmagnitude, List.append_nil] at hq₂
  obtain ⟨q₃, hq₃, hsign⟩ := reachesWithin_signCode i output (writeCode ++ last) hq₂ hroom
    (Nat.lt_of_le_of_lt hdigits (by decide))
  have hbytes : (if (start.register .r0).toInt32 < 0 then [45] else []) ++ digitsOf number.natAbs =
      bytesOf (toString number) := by
    have hless : (start.register .r0).toInt32 < 0 ↔ number < 0 := by
      rw [Int32.lt_iff_toInt_lt]
      rfl
    rw [bytesOf_toString_int]
    simp only [hless]
  rw [hbytes] at hq₃
  obtain ⟨q₄, hsp, hfp, hbyte, hwrite⟩ := reachesWithin_writeCode i output last hq₃
    (by
      rw [← hbytes, List.length_append]
      split <;> simp only [List.length_singleton, List.length_nil] <;> omega)
  exact ⟨q₄, hsp, hfp, hbyte, hopen.trans (hloop.trans (hsign.trans hwrite))⟩

/-- **The routine prints the number and returns.** It stores bytes in the buffer only, which lies
below the registers it has pushed. -/
theorem exists_run_printCode (hroom : printBytes ≤ (q.register .sp).toNat)
    (hloop : seek (Label.routine .printDigit).text i.lines =
      some (.label (.routine .printDigit) :: (loopCode ++ after))) :
    ∃ q', q.Restored q' ∧
      (∃ n, i.run n ⟨.label (.routine .print) :: (printCode ++ after), q, []⟩ =
        .back ⟨after, q', [.bytes (bytesOf (toString (q.register .r0).toInt32.toInt))]⟩) ∧
      ∀ n e a, i.run n ⟨.label (.routine .print) :: (printCode ++ after), q, []⟩ = .on e →
        e.byteStored? = some a → q.register .sp - 36 ≤ a ∧ a < q.register .sp - 20 := by
  let start := q.push pushedRegisters
  have hpushed : 4 * pushedRegisters.length ≤ (q.register .sp).toNat :=
    Nat.le_trans (by decide) hroom
  have hbottom : (start.register .sp).toNat = (q.register .sp).toNat - 20 :=
    Processor.toNat_register_push_sp hpushed
  have hbuffer : 16 ≤ (start.register .sp).toNat := by
    rw [hbottom]
    unfold printBytes at hroom
    omega
  have hnumber : start.register .r0 = q.register .r0 := Processor.register_push (by decide)
  have hrange : Register.range .r4 .r7 .lr = pushedRegisters := by decide
  have hrange' : Register.range .r4 .r7 .pc = poppedRegisters := by decide
  obtain ⟨q', hsp, hfp, hbyte, hprinting⟩ := reachesWithin_printing [] hbuffer hloop
  rw [hnumber, List.nil_append] at hprinting
  have hentered : i.ReachesWithin start.InBuffer
      ⟨.label (.routine .print) :: (printCode ++ after), q, []⟩
      ⟨openCode ++ .label (.routine .printDigit) :: (loopCode ++ after), start, []⟩ := by
    have hcode : printCode ++ after = .operation (.push .r4 .r7 .lr) ::
        (openCode ++ .label (.routine .printDigit) :: (loopCode ++ after)) := by
      simp only [printCode, List.cons_append, List.append_assoc]
    rw [hcode]
    refine (reachesWithin_of_step rfl rfl).trans (reachesWithin_operation rfl rfl ?_)
    rw [Operation.apply, hrange]
  have hback : i.step ⟨.operation (.pop .r4 .r7 .pc) :: after, q',
      [.bytes (bytesOf (toString (q.register .r0).toInt32.toInt))]⟩ =
      .back ⟨after, q'.pop poppedRegisters,
        [.bytes (bytesOf (toString (q.register .r0).toInt32.toInt))]⟩ := by
    rw [← hrange']
    rfl
  obtain ⟨hrun, hstores⟩ := (hentered.trans hprinting).returns rfl hback
  refine ⟨_, Processor.restored_pop hpushed hsp (hfp.trans (Processor.register_push (by decide)))
    hbyte, hrun, fun n e a he ha ↦ ?_⟩
  obtain ⟨hlow, hhigh⟩ := hstores n e a he ha
  have hlowest : start.register .sp - 16 = q.register .sp - 36 := by
    have hsp := (q.register .sp).toNat_lt
    have hsixteen : (16 : UInt32).toNat = 16 := rfl
    have hthirtySix : (36 : UInt32).toNat = 36 := rfl
    apply UInt32.toNat.inj
    rw [UInt32.toNat_sub, UInt32.toNat_sub, hbottom, hsixteen, hthirtySix]
    omega
  rw [hlowest] at hlow
  rw [Processor.register_push_sp] at hhigh
  exact ⟨hlow, hhigh⟩

/-- **A print routine that callers can rely on.** The routine of the code does to a processor what
some function with `PrintContract` does. -/
theorem exists_printContract
    (hloop : seek (Label.routine .printDigit).text i.lines =
      some (.label (.routine .printDigit) :: (loopCode ++ after))) :
    ∃ print, PrintContract print ∧ ∀ q : Processor, printBytes ≤ (q.register .sp).toNat →
      ∃ n, i.run n ⟨.label (.routine .print) :: (printCode ++ after), q, []⟩ =
        .back ⟨after, print q, [.bytes (bytesOf (toString (q.register .r0).toInt32.toInt))]⟩ := by
  have hroutine := fun (q : Processor) (hroom : printBytes ≤ (q.register .sp).toNat) ↦
    exists_run_printCode hroom hloop
  choose print hrestored hrun _ using hroutine
  let print' (q : Processor) : Processor :=
    if h : printBytes ≤ (q.register .sp).toNat then print q h else q
  have heq : ∀ q h, print' q = print q h := fun q h ↦ dif_pos h
  refine ⟨print', ⟨fun q h r hr ↦ ?_, fun q h a ha ↦ ?_⟩, fun q h ↦ heq q h ▸ hrun q h⟩
  · rw [heq q h]
    exact (hrestored q h).register_eq r (by revert r; decide)
  · rw [heq q h]
    exact (hrestored q h).byte_eq a (UInt32.le_iff_toNat_le.2 ha)

end Image

/-! ### The routine of a program -/

section Lowered

variable {p : Program} (layout : Layout) {options : Options} (inputs : List Cell)

variable {layout inputs} in
/-- A routine after the code of the statements is found past it. -/
theorem text_ne_of_mem_labels_codeFrom (hp : p.WellFormed) {r : Routine} (hr : r ≠ .clear)
    (hentry : options.entry ≠ r.text) {l : Label}
    (hl : l ∈ labels (codeFrom layout options inputs 0 p.statements)) :
    l.text ≠ (Label.routine r).text := by
  rcases mem_labels_codeFrom (numbered_statements hp) hl with
    ⟨line, -, rfl⟩ | ⟨f, -, rfl⟩ | ⟨-, rfl | rfl⟩
  · exact fun h ↦ absurd (Label.eq_of_text_eq (by simp) (by simp) h) (by simp)
  · exact fun h ↦ absurd (Label.eq_of_text_eq (by simp) (by simp) h) (by simp)
  · exact hentry
  · intro h
    have hclear : Routine.clear.text = r.text := h
    exact hr (Routine.text_injective hclear).symm

/-- Where the two labels of the routine are found. -/
theorem seek_print_lower (hp : p.WellFormed) (hprint : options.entry ≠ Routine.print.text)
    (hdigit : options.entry ≠ Routine.printDigit.text) :
    seek Routine.print.text (lower p layout options inputs) =
        some (.label (.routine .print) :: (printCode ++ exitRoutines options.verbose)) ∧
      seek Routine.printDigit.text (lower p layout options inputs) =
        some (.label (.routine .printDigit) :: (loopCode ++ exitRoutines options.verbose)) := by
  let above := header p.length layout.size ++ codeFrom layout options inputs 0 p.statements ++
    remark options.verbose "print r0 in decimal to stdout"
  have hlower : lower p layout options inputs = above ++
      .label (.routine .print) :: (printCode ++ exitRoutines options.verbose) := by
    rw [lower_eq, routines, printRoutine_eq]
    simp only [above, List.append_assoc, List.cons_append]
  have habove : ∀ r, r ≠ Routine.clear → options.entry ≠ r.text → ∀ l ∈ labels above,
      l.text ≠ (Label.routine r).text := by
    intro r hr hentry l hl
    rw [labels_append, labels_append, labels_header, labels_remark, List.append_nil,
      List.nil_append] at hl
    exact text_ne_of_mem_labels_codeFrom hp hr hentry hl
  refine ⟨?_, ?_⟩
  · rw [hlower]
    exact (seek_of_forall_ne (habove .print (by decide) hprint)).trans (if_pos rfl)
  · have hcode : above ++ .label (.routine .print) ::
        (printCode ++ exitRoutines options.verbose) =
        (above ++ .label (.routine .print) :: .operation (.push .r4 .r7 .lr) :: openCode) ++
          .label (.routine .printDigit) :: (loopCode ++ exitRoutines options.verbose) := by
      simp only [printCode, List.append_assoc, List.cons_append]
    rw [hlower, hcode]
    refine (seek_of_forall_ne fun l hl ↦ ?_).trans (if_pos rfl)
    rw [labels_append, List.mem_append] at hl
    rcases hl with hl | hl
    · exact habove .printDigit (by decide) hdigit l hl
    · have hopen : labels openCode = [] := rfl
      rw [labels_label_cons, labels_operation_cons, hopen, List.mem_singleton] at hl
      rw [hl]
      decide

/-- **The print routine of a lowered program prints every word as a signed number in decimal.** For
every program that was read and lowered, whatever its layout, under an entry label that is none of
the two labels of the routine: the text of the lowered code can be read, and what was read, started
at the routine with room below the stack pointer, puts out the decimal text of the first register
and nothing else, and returns. The registers that callers keep and all memory from the stack pointer
on are as they were. Bytes are stored only in the sixteen bytes of the buffer, which lies below the
twenty bytes of the registers that were pushed. -/
theorem exists_start_prints {source : String} (hp : Program.ofText source = .ok p)
    {lines : List Line} (hlines : generate p layout options inputs = .ok lines)
    (hprint : options.entry ≠ Routine.print.text)
    (hdigit : options.entry ≠ Routine.printDigit.text) (print : Processor → Processor)
    {q : Processor} (hroom : printBytes ≤ (q.register .sp).toNat) :
    ∃ code start n after q', readAll? (text lines) = some code ∧
      Image.start ⟨code, print⟩ Routine.print.text q = some start ∧
      Image.run ⟨code, print⟩ n start =
        .back ⟨after, q', [.bytes (bytesOf (toString (q.register .r0).toInt32.toInt))]⟩ ∧
      q.Restored q' ∧
      ∀ k e a, Image.run ⟨code, print⟩ k start = .on e → e.byteStored? = some a →
        q.register .sp - 36 ≤ a ∧ a < q.register .sp - 20 := by
  have hwf := Program.wellFormed_of_ofText hp
  obtain ⟨haccepts, -, rfl⟩ := generate_eq_ok_iff.1 hlines
  let i : Image := ⟨lower p layout options inputs, print⟩
  obtain ⟨hseek, hloop⟩ := seek_print_lower layout inputs hwf hprint hdigit
  obtain ⟨q', hrestored, ⟨n, hrun⟩, hstores⟩ := Image.exists_run_printCode (i := i) hroom hloop
  let start : Execution :=
    ⟨.label (.routine .print) :: (printCode ++ exitRoutines options.verbose), q, []⟩
  refine ⟨_, start.named, n, (exitRoutines options.verbose).map Line.named, q',
    readAll?_text_lower hwf layout inputs haccepts.isIdentifier, ?_, ?_, hrestored, ?_⟩
  · rw [Image.start, seek_map_named, hseek]
    rfl
  · exact (Image.run_named (i := i) n).trans (congrArg Turn.named hrun)
  · intro k e a he ha
    obtain ⟨e₀, he₀, rfl⟩ :=
      Turn.exists_of_named_eq_on ((Image.run_named (i := i) (e := start) k).symm.trans he)
    exact hstores k e₀ a he₀ (e₀.byteStored?_named ▸ ha)

end Lowered

/-- The least number, which is its own negation as a word, with the least stack that has room. -/
theorem exists_start_prints_least :
    ∃ (p : Program) (lines code after : List Line) (q q' : Processor) (start : Execution) (n : Nat),
      Program.ofText "exit" = .ok p ∧ generate p ⟨1, 0, []⟩ {} [] = .ok lines ∧
      q.register .sp = 36 ∧ q.register .r0 = 0x80000000 ∧ readAll? (text lines) = some code ∧
      Image.start ⟨code, id⟩ Routine.print.text q = some start ∧
      Image.run ⟨code, id⟩ n start =
        .back ⟨after, q', [.bytes [45, 50, 49, 52, 55, 52, 56, 51, 54, 52, 56]]⟩ ∧
      q.Restored q' := by
  let p : Program := ⟨[⟨1, [], .exit⟩], []⟩
  let q : Processor :=
    ⟨fun r ↦ if r = .sp then 36 else 0x80000000, ⟨false, false, false, false⟩, fun _ ↦ 0⟩
  have hp : Program.ofText "exit" = .ok p := by rfl
  have hlines : generate p ⟨1, 0, []⟩ {} [] = .ok (lower p ⟨1, 0, []⟩ {} []) := by rfl
  have hbytes : bytesOf (toString (q.register .r0).toInt32.toInt) =
      [45, 50, 49, 52, 55, 52, 56, 51, 54, 52, 56] := by decide +kernel
  obtain ⟨code, start, n, after, q', hcode, hstart, hrun, hrestored, -⟩ :=
    exists_start_prints ⟨1, 0, []⟩ [] hp hlines (by decide) (by decide) id
      (by decide : printBytes ≤ (q.register .sp).toNat)
  rw [hbytes] at hrun
  exact ⟨p, _, code, after, q, q', start, n, hp, hlines, rfl, rfl, hcode, hstart, hrun, hrestored⟩

end CursorMachine.Arm
