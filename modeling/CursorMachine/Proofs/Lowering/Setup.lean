import CursorMachine.Proofs.Lowering.Simulation

/-!
# The frame is set up

From the entry label on, the code reserves the frame below the stack pointer, clears it in a loop,
stores the inputs and points the cursor at the first cell. It then stands at the prepared machine
(`Image.Implements.leadsTo_entry`), whatever memory held before.

The loop runs upwards from the bottom of the frame, so a cell with a high address is cleared first.
The induction is on the number of cells that are still to be cleared: they are those with the lowest
addresses, and the cells above them are left alone (`reaches_clearLoop`).
-/

namespace CursorMachine.Arm

/-- The loop that clears the frame, with its label. -/
def clearLoop : List Line :=
  [.label (.routine .clear), .operation (.compare .r2 (.register .fp)),
    .operation (.store .lower .r0 (.postIndexed .r2 4)),
    .operation (.branch .lower (.routine .clear))]

/-- The code that stores inputs from an address on. -/
def storeInputs (inputs : List Cell) (address : Nat) : List Line :=
  (inputs.zipIdx address).flatMap fun (value, address) ↦ storeInput value address

namespace Image

variable {i : Image} {size : Nat} {base : UInt32} {q : Processor} {output : List Event}
  {rest : List Line}

/-! ### Clearing -/

/-- The loop is left when its pointer has come to the frame base. -/
theorem reaches_clearLoop_end (hfp : q.register .fp = base) (hr2 : q.register .r2 = base) :
    ∃ q', i.Reaches ⟨clearLoop ++ rest, q, output⟩ ⟨rest, q', output⟩ ∧
      q'.register = q.register ∧ q'.byte = q.byte := by
  have hlower : ¬Condition.lower.holds (.ofDifference base base) = true := by
    rw [holds_ofDifference_lower]
    exact UInt32.lt_irrefl base
  have hcompare : (Operation.compare .r2 (.register .fp)).apply q =
      { q with flags := .ofDifference base base } := by
    rw [Operation.apply, Operand.value, hr2, hfp]
  have hstore : (Operation.store .lower .r0 (.postIndexed .r2 4)).apply
      { q with flags := .ofDifference base base } = { q with flags := .ofDifference base base } :=
    if_neg hlower
  refine ⟨{ q with flags := .ofDifference base base }, .head rfl ?_, rfl, rfl⟩
  refine (reaches_operation rfl hcompare).trans ((reaches_operation rfl hstore).trans ?_)
  exact reaches_of_not_holds hlower

/-- A pass of the loop clears the cell that its pointer is at, and goes on with the next one. -/
theorem reaches_clearLoop_pass (output : List Event) (hroom : Room size base)
    (hclear : seek (Label.routine .clear).text i.lines = some (clearLoop ++ rest)) {k : Nat}
    (hk : k < size) (hfp : q.register .fp = base) (hr2 : q.register .r2 = cellAddress base k)
    (hr0 : q.register .r0 = 0) :
    ∃ q', i.Reaches ⟨clearLoop ++ rest, q, output⟩ ⟨clearLoop ++ rest, q', output⟩ ∧
      q'.register = (q.set .r2 (base - cellBytes k)).register ∧
      q'.byte = (q.storeWord (cellAddress base k) 0).byte := by
  let f : Flags := .ofDifference (cellAddress base k) base
  have hlower : Condition.lower.holds f = true := by
    have hbytes := hroom.bytes_le
    rw [holds_ofDifference_lower, UInt32.lt_iff_toNat_lt, hroom.toNat_cellAddress hk]
    simp only [wordBytes, printBytes] at *
    omega
  have hnext : cellAddress base k + .ofInt 4 = base - cellBytes k := by
    have hbytes := hroom.bytes_le
    have hbase := base.toNat_lt
    have hfour : (UInt32.ofInt 4).toNat = 4 := rfl
    apply UInt32.toNat.inj
    rw [UInt32.toNat_add, UInt32.toNat_sub, hroom.toNat_cellAddress hk,
      hroom.toNat_cellBytes (by omega), hfour]
    simp only [wordBytes, printBytes] at *
    omega
  have hcompare : (Operation.compare .r2 (.register .fp)).apply q = { q with flags := f } := by
    rw [Operation.apply, Operand.value, hr2, hfp]
  have hstore : (Operation.store .lower .r0 (.postIndexed .r2 4)).apply { q with flags := f } =
      (({ q with flags := f } : Processor).set .r2 (base - cellBytes k)).storeWord
        (cellAddress base k) 0 := by
    rw [Operation.apply, if_pos hlower, Address.resolve]
    dsimp only
    rw [hr2, hr0, hnext]
  refine ⟨(({ q with flags := f } : Processor).set .r2 (base - cellBytes k)).storeWord
    (cellAddress base k) 0, .head rfl ?_, rfl, rfl⟩
  refine (reaches_operation rfl hcompare).trans ((reaches_operation rfl hstore).trans ?_)
  exact reaches_of_step ((step_branch_of_holds hlower).trans (step_jump hclear))

/-- **The loop clears the cells that are left**, and no others. -/
theorem reaches_clearLoop (output : List Event) (hroom : Room size base)
    (hclear : seek (Label.routine .clear).text i.lines = some (clearLoop ++ rest)) {k : Nat}
    (hk : k ≤ size) (hfp : q.register .fp = base) (hr2 : q.register .r2 = base - cellBytes k)
    (hr0 : q.register .r0 = 0) :
    ∃ q', i.Reaches ⟨clearLoop ++ rest, q, output⟩ ⟨rest, q', output⟩ ∧
      q'.register .fp = base ∧ q'.register .sp = q.register .sp ∧
      ∀ a < size, q'.word (cellAddress base a) =
        if a < k then 0 else q.word (cellAddress base a) := by
  induction k generalizing q with
  | zero =>
    have hr2' : q.register .r2 = base := by
      rw [hr2, cellBytes, Nat.zero_mul]
      exact UInt32.sub_zero base
    obtain ⟨q', hreaches, hregister, hbyte⟩ := reaches_clearLoop_end hfp hr2'
    refine ⟨q', hreaches, by rw [hregister, hfp], by rw [hregister], fun a ha ↦ ?_⟩
    rw [if_neg (Nat.not_lt_zero a), Processor.word, Processor.word, hbyte]
  | succ k ih =>
    obtain ⟨q₁, hpass, hregister, hbyte⟩ := reaches_clearLoop_pass output hroom hclear (by omega)
      hfp hr2 hr0
    obtain ⟨q₂, hreaches, hfp₂, hsp₂, hword₂⟩ := ih (q := q₁) (by omega)
      (by simp [hregister, hfp]) (by simp [hregister]) (by simp [hregister, hr0])
    refine ⟨q₂, hpass.trans hreaches, hfp₂, by simp [hsp₂, hregister], fun a ha ↦ ?_⟩
    rw [hword₂ a ha]
    have hword : q₁.word = (q.storeWord (cellAddress base k) 0).word := by
      funext x
      rw [Processor.word, Processor.word, hbyte]
    -- A cell below is cleared later, cell `k` in this pass, and one above has been left behind.
    rcases Nat.lt_trichotomy a k with hlt | rfl | hgt
    · rw [if_pos hlt, if_pos (by omega)]
    · rw [if_neg (Nat.lt_irrefl a), if_pos (Nat.lt_succ_self a), hword,
        Processor.word_storeWord_self]
    · rw [if_neg (by omega), if_neg (by omega), hword,
        Processor.word_storeWord_of_apart _ _ _ _ (hroom.apart ha (by omega) (by omega))
          (hroom.apart (by omega) ha (by omega))]

/-! ### Inputs -/

/-- **The inputs are stored one after the other.** -/
theorem reaches_storeInputs (i : Image) (output : List Event) (rest : List Line)
    (hroom : Room size base) {vs : List Cell} {address : Nat} {memory : Vector Cell size}
    (haddress : address + vs.length ≤ size) (hq : q.Frame base memory) :
    ∃ q', i.Reaches ⟨storeInputs vs address ++ rest, q, output⟩ ⟨rest, q', output⟩ ∧
      q'.Frame base (Machine.store memory address vs) := by
  induction vs generalizing q address memory with
  | nil => exact ⟨q, .refl, hq⟩
  | cons v vs ih =>
    rw [List.length_cons] at haddress
    have hlt : address < size := by omega
    have hloaded := (hq.set (r := .r0) (by decide) (by decide) v.toUInt32).set (r := .r1)
      (by decide) (by decide) (cellOffset address)
    have hstored := hloaded.storeWord hroom hlt v
    have hset : memory.set address v = memory.setIfInBounds address v := by
      ext j hj
      rw [Vector.getElem_set, Vector.getElem_setIfInBounds]
    have hrest : address + 1 + vs.length ≤ size := by omega
    rw [hset] at hstored
    obtain ⟨q', hreaches, hq'⟩ := ih hrest hstored
    refine ⟨q', ?_, hq'⟩
    have hcode : storeInputs (v :: vs) address ++ rest =
        loadConstant .r0 v.toUInt32 ++ (loadConstant .r1 (cellOffset address) ++
          .operation (.store .always .r0 (.below .fp .r1)) ::
            (storeInputs vs (address + 1) ++ rest)) := by
      simp [storeInputs, storeInput, List.zipIdx_cons]
    rw [hcode]
    refine (reaches_loadConstant .r0 _).trans ((reaches_loadConstant .r1 _).trans ?_)
    refine (reaches_operation rfl ?_).trans hreaches
    rw [Processor.apply_store_below (a := address) hloaded.fp_eq (by simp)]
    simp

/-! ### From the entry on -/

/-- The code after the frame has been cleared. -/
def afterClear (options : Options) (inputs : List Cell) (rest : List Line) : List Line :=
  remark (options.verbose && !inputs.isEmpty) s!"store {inputs.length} input value(s)" ++
    (storeInputs inputs 0 ++
      .operation (.arithmetic .subtract .always .r4 .fp (.immediate 4)) :: rest)

/-- The code after the entry label. -/
def afterEntry (options : Options) (size : Nat) (inputs : List Cell) (rest : List Line) :
    List Line :=
  remark options.verbose s!"reserve and clear {size} memory cell(s)" ++
    .operation (.move .always .fp (.register .sp)) ::
      (loadConstant .r1 (cellBytes size) ++
        .operation (.arithmetic .subtract .always .sp .sp (.register .r1)) ::
        .operation (.move .always .r0 (.immediate 0)) ::
        .operation (.move .always .r2 (.register .sp)) ::
          (clearLoop ++ afterClear options inputs rest))

theorem setup_append (options : Options) (size : Nat) (inputs : List Cell) (rest : List Line) :
    setup options size inputs ++ rest =
      .directive (.visible (.entry options.entry)) :: .label (.entry options.entry) ::
        afterEntry options size inputs rest := by
  simp [setup, afterEntry, afterClear, clearLoop, storeInputs]

/-- The registers that the loop starts from. -/
theorem reaches_clearLoop_start (i : Image) (options : Options) (size : Nat) (inputs : List Cell)
    (rest : List Line) (output : List Event) (hsp : q.register .sp = base) :
    ∃ q', i.Reaches ⟨afterEntry options size inputs rest, q, output⟩
        ⟨clearLoop ++ afterClear options inputs rest, q', output⟩ ∧
      q'.register .fp = base ∧ q'.register .sp = base - cellBytes size ∧
      q'.register .r2 = base - cellBytes size ∧ q'.register .r0 = 0 := by
  have hfp : (Operation.move .always .fp (.register .sp)).apply q = q.set .fp base := by
    simp [Operation.apply, Operand.value, hsp]
  have hbottom : (Operation.arithmetic .subtract .always .sp .sp (.register .r1)).apply
      ((q.set .fp base).set .r1 (cellBytes size)) =
      ((q.set .fp base).set .r1 (cellBytes size)).set .sp (base - cellBytes size) := by
    simp [Operation.apply, Operand.value, Arithmetic.apply, hsp]
  refine ⟨_, reaches_remark _ _ |>.trans ((reaches_operation rfl hfp).trans
    ((reaches_loadConstant .r1 _).trans ((reaches_operation rfl hbottom).trans
      ((reaches_operation rfl rfl).trans (reaches_operation rfl rfl))))), ?_⟩
  simp [Operation.apply, Operand.value]

namespace Implements

variable {p : Program} {layout : Layout} {options : Options} {inputs : List Cell}

/-- **From the entry on, the code leads to the prepared machine**, whatever the processor holds
besides a stack pointer with room below it. -/
theorem leadsTo_entry (hi : i.Implements p layout options inputs size base)
    (hstart : layout.start ≤ p.length) (hinputs : inputs.length ≤ size) {m : Machine size}
    (hmemory : m.memory = Machine.load size inputs) (hcursor : m.cursor.val = 0)
    (hposition : m.position = layout.start) (hprinted : m.printed = #[])
    (hsp : q.register .sp = base) :
    ∃ ahead, seek options.entry i.lines = some ahead ∧ i.LeadsTo base ⟨ahead, q, []⟩ m := by
  let rest := codeAt p layout options inputs layout.start
  -- The setup stands right before the code of the place to start at.
  have hsetup : setup options layout.size inputs ++ rest <:+ lower p layout options inputs := by
    have hsuffix := codeFrom_suffix_lower layout options inputs hstart
    rw [codeFrom_drop hstart, arrival, if_pos rfl, List.append_assoc] at hsuffix
    exact (List.suffix_append _ _).trans hsuffix
  rw [setup_append, hi.size_eq] at hsetup
  have hentry := hi.seek_label ((List.suffix_cons _ _).trans hsetup)
  have hclear : seek (Label.routine .clear).text i.lines =
      some (clearLoop ++ afterClear options inputs rest) := by
    refine hi.seek_label (List.IsSuffix.trans ?_ ((List.suffix_append [_, _] _).trans hsetup))
    exact (List.suffix_append [_, _, _] _).trans ((List.suffix_append _ _).trans
      ((List.suffix_cons _ _).trans (List.suffix_append _ _)))
  obtain ⟨q₁, hstarted, hfp₁, hsp₁, hr2₁, hr0₁⟩ :=
    reaches_clearLoop_start i options size inputs rest [] hsp
  obtain ⟨q₂, hcleared, hfp₂, hsp₂, hword₂⟩ :=
    reaches_clearLoop [] hi.room hclear (Nat.le_refl size) hfp₁ hr2₁ hr0₁
  have hframe₂ : q₂.Frame base (Vector.replicate size (0 : Cell)) := by
    refine ⟨hfp₂, hsp₂.trans hsp₁, fun a ha ↦ ?_⟩
    rw [hword₂ a ha, if_pos ha, Vector.getElem_replicate]
    rfl
  let cursorCode : List Line :=
    .operation (.arithmetic .subtract .always .r4 .fp (.immediate 4)) :: rest
  obtain ⟨q₃, hstored, hframe₃⟩ := reaches_storeInputs i [] cursorCode hi.room
    (by omega : 0 + inputs.length ≤ size) hframe₂
  have hfirst : (Operation.arithmetic .subtract .always .r4 .fp (.immediate 4)).apply q₃ =
      q₃.set .r4 (cellAddress base 0) := by
    simp [Operation.apply, Operand.value, Arithmetic.apply, hframe₃.fp_eq, cellAddress]
    rfl
  have hframe := hframe₃.set (r := .r4) (by decide) (by decide) (cellAddress base 0)
  refine ⟨_, hentry, ⟨rest, q₃.set .r4 (cellAddress base 0), []⟩, ?_, ?_, ⟨?_, ?_⟩, ?_⟩
  · refine .head rfl (hstarted.trans (hcleared.trans ((reaches_remark _ _).trans ?_)))
    exact hstored.trans (reaches_operation rfl hfirst)
  · rw [hposition]
    exact hi.seek_node hstart
  · rw [hmemory]
    exact hframe
  · rw [hcursor]
    simp
  · rw [hprinted]
    rfl

end Implements

end Image

end CursorMachine.Arm
