import CursorMachine.Instruction.Decode
import CursorMachine.Proofs.Reading.Numerals

/-!
# Operands in range

What an instruction that was read can have for operands, and that every such instruction is read
back from the operands it is written with.

`Instruction.InRange` lists the ranges: moves and updates go by at least one, addresses and lines
stay within what a literal may denote, and names are identifiers. The two directions are
`inRange_of_decode` (nothing else is read) and `decode_operands` (all of it can be read). A cell
needs no range of its own, since `Cell` has no other values.
-/

namespace CursorMachine

/-! ### Sequences of readers -/

/-- A sequence of two readers gives a result exactly when both do. -/
theorem bind_eq_ok_iff {ε α β : Type} {x : Except ε α} {f : α → Except ε β} {b : β} :
    x >>= f = .ok b ↔ ∃ a, x = .ok a ∧ f a = .ok b := by
  cases x with
  | error e => simp [bind, Except.bind]
  | ok a => simp [bind, Except.bind]

/-- A sequence of two readers fails when the first does, or when the second does on what the first
one gave. -/
theorem bind_eq_error_iff {ε α β : Type} {x : Except ε α} {f : α → Except ε β} {e : ε} :
    x >>= f = .error e ↔ x = .error e ∨ ∃ a, x = .ok a ∧ f a = .error e := by
  cases x with
  | error e => simp [bind, Except.bind]
  | ok a => simp [bind, Except.bind]

namespace Instruction

open Text.Numeral (maxMagnitude)

/-- The operands are some that a program can write. -/
def InRange : Instruction → Prop
  | .moveBy _ n | .jumpBy _ n => 1 ≤ n ∧ n ≤ maxMagnitude
  | .moveTo a | .copyTo a | .jumpTo a => a ≤ maxMagnitude
  | .compare _ a b => a ≤ maxMagnitude ∧ b ≤ maxMagnitude
  | .function name | .call name => Text.isIdentifier name = true
  | .update _ v => 1 ≤ v.toInt
  | .set _ | .print | .close | .exit => True

variable {line : Nat} {text : String}

/-! ### What a reader accepts -/

theorem number_eq_ok_iff {n : Int} :
    number line text = .ok n ↔ Text.Numeral.read? text = some n := by
  unfold number
  cases Text.Numeral.read? text <;> simp

theorem address_le {a : Nat} (h : address line text = .ok a) : a ≤ maxMagnitude := by
  obtain ⟨n, hn, ha⟩ := bind_eq_ok_iff.1 h
  have hle := Text.Numeral.natAbs_le_of_read?_eq_some (number_eq_ok_iff.1 hn)
  split at ha
  · cases ha
    omega
  · cases ha

theorem valueAmount_ge {v : Cell} (h : valueAmount line text = .ok v) : 1 ≤ v.toInt := by
  obtain ⟨w, -, hv⟩ := bind_eq_ok_iff.1 h
  split at hv
  · cases hv
    assumption
  · cases hv

theorem moveAmount_mem {n : Nat} (h : moveAmount line text = .ok n) :
    1 ≤ n ∧ n ≤ maxMagnitude := by
  obtain ⟨m, hm, hn⟩ := bind_eq_ok_iff.1 h
  have hle := Text.Numeral.natAbs_le_of_read?_eq_some (number_eq_ok_iff.1 hm)
  split at hn
  · cases hn
    omega
  · cases hn

theorem functionName_eq_ok_iff {name : String} :
    functionName line text = .ok name ↔ Text.isIdentifier text = true ∧ text = name := by
  unfold functionName
  split <;> simp [*]

/-! ### What a reader gives for a written operand -/

theorem address_toString {a : Nat} (h : a ≤ maxMagnitude) : address line (toString a) = .ok a := by
  refine bind_eq_ok_iff.2 ⟨a, number_eq_ok_iff.2 (Text.Numeral.read?_toString_nat h), ?_⟩
  simp

theorem moveAmount_toString {n : Nat} (h₁ : 1 ≤ n) (h : n ≤ maxMagnitude) :
    moveAmount line (toString n) = .ok n := by
  refine bind_eq_ok_iff.2 ⟨n, number_eq_ok_iff.2 (Text.Numeral.read?_toString_nat h), ?_⟩
  rw [if_pos (by omega), Int.toNat_natCast]

theorem value_toString (v : Cell) : value line (toString v.toInt) = .ok v := by
  have hlow := v.minValue_le_toInt
  have hhigh := v.toInt_le
  have hmag : v.toInt.natAbs ≤ maxMagnitude := by
    rw [Int32.toInt_minValue] at hlow
    rw [Int32.toInt_maxValue] at hhigh
    rw [maxMagnitude]
    omega
  refine bind_eq_ok_iff.2 ⟨v.toInt, number_eq_ok_iff.2 (Text.Numeral.read?_toString_int hmag), ?_⟩
  rw [if_pos ⟨hlow, hhigh⟩, Int32.ofInt_toInt]

theorem valueAmount_toString {v : Cell} (h : 1 ≤ v.toInt) :
    valueAmount line (toString v.toInt) = .ok v := by
  refine bind_eq_ok_iff.2 ⟨v, value_toString v, ?_⟩
  rw [if_pos h]

/-! ### Whole instructions -/

/-- **Nothing out of range is read.** An instruction that was read belongs to its keyword and has
operands in range. -/
theorem inRange_of_decode {k : Keyword} {params : List String} {i : Instruction}
    (h : decode k line params = .ok i) : i.InRange ∧ i.keyword = k := by
  unfold decode at h
  split at h
  -- an omitted amount, or no operand at all
  case h_1 | h_5 | h_8 | h_10 | h_12 =>
    cases h
    simp [InRange, keyword, maxMagnitude]
  -- the amount of a move
  case h_2 | h_6 =>
    obtain ⟨n, hn, h⟩ := bind_eq_ok_iff.1 h
    cases h
    exact ⟨moveAmount_mem hn, rfl⟩
  -- an address or a line
  case h_3 | h_4 | h_7 =>
    obtain ⟨a, ha, h⟩ := bind_eq_ok_iff.1 h
    cases h
    exact ⟨address_le ha, rfl⟩
  -- the name of a function
  case h_9 | h_11 =>
    obtain ⟨name, hname, h⟩ := bind_eq_ok_iff.1 h
    cases h
    obtain ⟨hid, rfl⟩ := functionName_eq_ok_iff.1 hname
    exact ⟨hid, rfl⟩
  case h_13 =>
    obtain ⟨a, ha, h⟩ := bind_eq_ok_iff.1 h
    obtain ⟨b, hb, h⟩ := bind_eq_ok_iff.1 h
    cases h
    exact ⟨⟨address_le ha, address_le hb⟩, rfl⟩
  case h_14 =>
    obtain ⟨v, -, h⟩ := bind_eq_ok_iff.1 h
    cases h
    exact ⟨trivial, rfl⟩
  case h_15 =>
    obtain ⟨v, hv, h⟩ := bind_eq_ok_iff.1 h
    cases h
    exact ⟨valueAmount_ge hv, rfl⟩
  case h_16 => cases h

/-- **All that is in range is read.** The operands an instruction is written with give it back,
after its own keyword and on any line. -/
theorem decode_operands (line : Nat) {i : Instruction} (h : i.InRange) :
    decode i.keyword line i.operands = .ok i := by
  cases i with
  | moveBy d n | jumpBy d n =>
    exact bind_eq_ok_iff.2 ⟨n, moveAmount_toString h.1 h.2, rfl⟩
  | moveTo a | copyTo a | jumpTo a => exact bind_eq_ok_iff.2 ⟨a, address_toString h, rfl⟩
  | function name | call name =>
    exact bind_eq_ok_iff.2 ⟨name, functionName_eq_ok_iff.2 ⟨h, rfl⟩, rfl⟩
  | compare r a b =>
    exact bind_eq_ok_iff.2 ⟨a, address_toString h.1,
      bind_eq_ok_iff.2 ⟨b, address_toString h.2, rfl⟩⟩
  | set v => exact bind_eq_ok_iff.2 ⟨v, value_toString v, rfl⟩
  | update u v => exact bind_eq_ok_iff.2 ⟨v, valueAmount_toString h, rfl⟩
  | print | close | exit => rfl

/-- Operands are written as numbers and as names. -/
theorem forall_mem_operands {P : String → Prop} (hnat : ∀ n : Nat, P (toString n))
    (hint : ∀ n : Int, P (toString n))
    (hname : ∀ name, Text.isIdentifier name = true → P name) {i : Instruction} (h : i.InRange) :
    ∀ w ∈ i.operands, P w := by
  intro w hw
  cases i with
  | moveBy | moveTo | copyTo | jumpBy | jumpTo =>
    obtain rfl := List.mem_singleton.1 hw
    exact hnat _
  | set | update =>
    obtain rfl := List.mem_singleton.1 hw
    exact hint _
  | function | call =>
    obtain rfl := List.mem_singleton.1 hw
    exact hname _ h
  | compare r a b =>
    rcases List.mem_cons.1 hw with rfl | hw
    · exact hnat a
    · obtain rfl := List.mem_singleton.1 hw
      exact hnat b
  | print | close | exit => cases hw

end Instruction

end CursorMachine
