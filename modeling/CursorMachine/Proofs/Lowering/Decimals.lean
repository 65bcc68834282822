import Mathlib.Algebra.Order.Ring.Int

/-!
# Numbers in decimal, by tenths

The bytes of a number in decimal, and the arithmetic by which code takes them from a word. The
digits of a number are those of its tenth and one more (`digitsOf_of_le`). A tenth is the high half
of a product with a reciprocal, shifted; that is exact for every word (`toNat_tenth`), so it also is
for the magnitude of the least signed number, which is no signed number itself (`toNat_magnitude`).
-/

namespace CursorMachine.Arm

/-! ### Numbers in decimal -/

/-- The bytes of a text. -/
def bytesOf (text : String) : List UInt8 :=
  text.toUTF8.data.toList

/-- The bytes of a number in decimal. -/
def digitsOf (n : Nat) : List UInt8 :=
  bytesOf (toString n)

section Digits

variable {n k : Nat}

theorem bytesOf_eq_flatMap (text : String) :
    bytesOf text = text.toList.flatMap String.utf8EncodeChar := by
  rw [bytesOf, String.toUTF8, ← String.utf8Encode_toList, List.utf8Encode, List.data_toByteArray]

theorem bytesOf_append (text text' : String) :
    bytesOf (text ++ text') = bytesOf text ++ bytesOf text' := by
  rw [bytesOf_eq_flatMap, String.toList_append, List.flatMap_append, bytesOf_eq_flatMap,
    bytesOf_eq_flatMap]

theorem digitsOf_eq_flatMap (n : Nat) :
    digitsOf n = (Nat.toDigits 10 n).flatMap String.utf8EncodeChar := by
  rw [digitsOf, bytesOf_eq_flatMap, Nat.toString_eq_repr, Nat.toList_repr]

/-- A digit is one byte. -/
theorem utf8EncodeChar_digitChar :
    ∀ d < 10, String.utf8EncodeChar (Nat.digitChar d) = [UInt8.ofNat (48 + d)] := by
  decide

theorem digitsOf_of_lt (h : n < 10) : digitsOf n = [UInt8.ofNat (48 + n)] := by
  rw [digitsOf_eq_flatMap, Nat.toDigits_of_lt_base h, List.flatMap_singleton,
    utf8EncodeChar_digitChar n h]

/-- The digits of a number are those of its tenth and one more. -/
theorem digitsOf_of_le (h : 10 ≤ n) :
    digitsOf n = digitsOf (n / 10) ++ [UInt8.ofNat (48 + n % 10)] := by
  rw [digitsOf_eq_flatMap, digitsOf_eq_flatMap, Nat.toDigits_of_base_le (by decide) h,
    List.flatMap_append, List.flatMap_singleton,
    utf8EncodeChar_digitChar _ (Nat.mod_lt n (by decide))]

theorem length_digitsOf_pos (n : Nat) : 0 < (digitsOf n).length := by
  by_cases hn : n < 10
  · rw [digitsOf_of_lt hn]
    exact Nat.one_pos
  · rw [digitsOf_of_le (Nat.not_lt.1 hn), List.length_append, List.length_singleton]
    exact Nat.succ_pos _

theorem length_digitsOf_le (hk : 0 < k) (h : n < 10 ^ k) : (digitsOf n).length ≤ k := by
  induction k generalizing n with
  | zero => cases hk
  | succ k ih =>
    by_cases hn : n < 10
    · rw [digitsOf_of_lt hn]
      exact hk
    · have hk : 0 < k := by
        rcases Nat.eq_zero_or_pos k with rfl | hk
        · omega
        · exact hk
      have htenth := ih hk (Nat.div_lt_of_lt_mul (Nat.pow_succ' ▸ h) : n / 10 < 10 ^ k)
      rw [digitsOf_of_le (Nat.not_lt.1 hn), List.length_append, List.length_singleton]
      omega

theorem bytesOf_toString_int (n : Int) :
    bytesOf (toString n) = (if n < 0 then [45] else []) ++ digitsOf n.natAbs := by
  rw [Int.toString_eq_repr, Int.repr_eq_if, digitsOf, Nat.toString_eq_repr]
  split
  · next h =>
    have habs : n.toNat = n.natAbs := by omega
    rw [if_neg (Int.not_lt.2 h), habs, List.nil_append]
  · next h =>
    have habs : (-n).toNat = n.natAbs := by omega
    rw [if_pos (Int.not_le.1 h), habs, bytesOf_append]
    rfl

end Digits

/-! ### Words -/

section Arithmetic

variable (x : UInt32)

/-- A word as a signed number. -/
theorem toInt_toInt32 : x.toInt32.toInt = (x.toNat : Int).bmod (2 ^ 32) :=
  BitVec.toInt_eq_toNat_bmod x.toBitVec

/-- A word negated when it is negative is its magnitude, also for the least number. -/
theorem toNat_magnitude :
    (if x.toInt32 < 0 then 0 - x else x).toNat = x.toInt32.toInt.natAbs := by
  have hx := x.toNat_lt
  have hint := toInt_toInt32 x
  have hzero : (0 : Int32).toInt = 0 := rfl
  rw [Int.bmod_def] at hint
  split
  · next h =>
    rw [Int32.lt_iff_toInt_lt, hzero] at h
    rw [UInt32.toNat_sub, UInt32.toNat_zero]
    split at hint <;> omega
  · next h =>
    rw [Int32.lt_iff_toInt_lt, hzero] at h
    split at hint <;> omega

/-- The high half of a product with the reciprocal, shifted by three, is a tenth. -/
theorem toNat_tenth :
    (UInt32.ofNat (x.toNat * (0xCCCCCCCD : UInt32).toNat / 2 ^ 32) >>> (3 : UInt32)).toNat =
      x.toNat / 10 := by
  have hx := x.toNat_lt
  have hfactor : (0xCCCCCCCD : UInt32).toNat = 3435973837 := rfl
  have hbits : (3 : UInt32).toNat % 32 = 3 := rfl
  obtain ⟨w, r, hr, hw⟩ : ∃ w r, r < 10 ∧ x.toNat = 10 * w + r :=
    ⟨x.toNat / 10, x.toNat % 10, Nat.mod_lt _ (by decide), (Nat.div_add_mod _ _).symm⟩
  rw [UInt32.toNat_shiftRight, UInt32.toNat_ofNat', hfactor, hbits, Nat.shiftRight_eq_div_pow,
    Nat.mod_eq_of_lt (by omega), Nat.div_div_eq_div_mul, hw]
  omega

variable {x} in
/-- What is left of a word after ten times its tenth, as the code of a digit. -/
theorem toNat_remainder {t : UInt32} (ht : t.toNat = x.toNat / 10) :
    (x - (t + t <<< (2 : UInt32)) <<< (1 : UInt32) + 48).toNat = 48 + x.toNat % 10 := by
  have hx := x.toNat_lt
  have hone : (1 : UInt32).toNat % 32 = 1 := rfl
  have htwo : (2 : UInt32).toNat % 32 = 2 := rfl
  have hzero : (48 : UInt32).toNat = 48 := rfl
  rw [UInt32.toNat_add, UInt32.toNat_sub, UInt32.toNat_shiftLeft, UInt32.toNat_add,
    UInt32.toNat_shiftLeft, hone, htwo, hzero, ht, Nat.shiftLeft_eq, Nat.shiftLeft_eq]
  omega

end Arithmetic

end CursorMachine.Arm
