import CursorMachine.Text.Numeral
import Mathlib.Algebra.Order.Ring.Int

/-!
# Numerals that are written back

Numbers are written in decimal, with a leading minus sign when they are negative. Read back, such a
text denotes the number it was written for (`read?_toString_int`), as long as the magnitude is one
that a literal may denote. Conversely no literal denotes a larger magnitude
(`natAbs_le_of_read?_eq_some`), so everything that was read can be written and read again.

The digits of a decimal number contain no letter, which is what keeps a leading zero from being
taken for a radix mark.
-/

namespace CursorMachine.Text.Numeral

/-! ### Magnitudes -/

/-- No digits denote a magnitude beyond the largest one. -/
theorem Radix.le_of_magnitude?_eq_some {r : Radix} {digits : List Char} {n : Nat}
    (h : r.magnitude? digits = some n) : n ≤ maxMagnitude := by
  unfold Radix.magnitude? at h
  split at h
  · cases h
  · simpa using (Option.filter_eq_some_iff.1 h).2

/-- A literal denotes the magnitude of its digits, with the sign in front of them. -/
theorem read?_eq_some_iff {text : String} {n : Int} :
    read? text = some n ↔
      ∃ m, (splitRadix (splitSign text.toList).2).1.magnitude?
          (splitRadix (splitSign text.toList).2).2 = some m ∧
        (if (splitSign text.toList).1 then -(m : Int) else m) = n := by
  simp [read?, Option.bind_eq_some_iff, pure]

/-- **No literal denotes a magnitude beyond the largest one.** -/
theorem natAbs_le_of_read?_eq_some {text : String} {n : Int} (h : read? text = some n) :
    n.natAbs ≤ maxMagnitude := by
  obtain ⟨m, hm, hn⟩ := read?_eq_some_iff.1 h
  have hle := Radix.le_of_magnitude?_eq_some hm
  split at hn <;> omega

/-! ### Decimal digits -/

theorem digit?_of_isDigit {c : Char} (h : c.isDigit = true) :
    Radix.decimal.digit? c = some (c.toNat - '0'.toNat) := by
  obtain ⟨h₀, h₉⟩ := Char.isDigit_iff_toNat.1 h
  have hle : '0' ≤ c ∧ c ≤ '9' := ⟨Char.le_def.2 (UInt32.le_iff_toNat_le.2 h₀),
    Char.le_def.2 (UInt32.le_iff_toNat_le.2 h₉)⟩
  have hlt : c.toNat - '0'.toNat < 10 := by
    have : '0'.toNat = 48 := rfl
    have : '9'.toNat = 57 := rfl
    omega
  simp only [Radix.digit?, digitValue?, if_pos hle, Option.filter_some, Radix.base, hlt,
    decide_true, if_true]

/-- Decimal digits denote what they stand for in positional notation. -/
theorem value?_of_isDigit {cs : List Char} (h : ∀ c ∈ cs, c.isDigit = true) (acc : Nat) :
    Radix.decimal.value? acc cs = some (Nat.ofDigitChars 10 cs acc) := by
  induction cs generalizing acc with
  | nil => simp [Radix.value?]
  | cons c cs ih =>
    rw [Radix.value?, digit?_of_isDigit (h c (by simp)), Option.bind_some,
      ih (fun d hd ↦ h d (by simp [hd])), Nat.ofDigitChars_cons, Radix.base, Nat.mul_comm]

/-- Digits alone carry no radix mark. -/
theorem splitRadix_of_isDigit {cs : List Char} (h : ∀ c ∈ cs, c.isDigit = true) :
    splitRadix cs = (.decimal, cs) := by
  unfold splitRadix
  split
  · exact absurd (h 'x' (by simp)) (by decide)
  · exact absurd (h 'X' (by simp)) (by decide)
  · exact absurd (h 'b' (by simp)) (by decide)
  · exact absurd (h 'B' (by simp)) (by decide)
  · rfl

theorem isDigit_of_mem_toDigits {n : Nat} {c : Char} (h : c ∈ Nat.toDigits 10 n) :
    c.isDigit = true :=
  Nat.isDigit_of_mem_toDigits (by decide) (by decide) h

/-- The decimal digits of a number denote it. -/
theorem magnitude?_toDigits {n : Nat} (h : n ≤ maxMagnitude) :
    Radix.decimal.magnitude? (Nat.toDigits 10 n) = some n := by
  have hne : (Nat.toDigits 10 n).isEmpty = false := by
    simp [Nat.toDigits_ne_nil]
  rw [Radix.magnitude?, hne, value?_of_isDigit fun c ↦ isDigit_of_mem_toDigits,
    Nat.ofDigitChars_ten_toDigits]
  simp [h]

/-- What a literal with decimal digits denotes. -/
theorem read?_of_splitSign {n : Nat} {negative : Bool} {text : String} (h : n ≤ maxMagnitude)
    (htext : splitSign text.toList = (negative, Nat.toDigits 10 n)) :
    read? text = some (if negative then -(n : Int) else n) := by
  refine read?_eq_some_iff.2 ⟨n, ?_, by rw [htext]⟩
  rw [htext, splitRadix_of_isDigit fun c ↦ isDigit_of_mem_toDigits]
  exact magnitude?_toDigits h

theorem splitSign_toDigits (n : Nat) :
    splitSign (Nat.toDigits 10 n) = (false, Nat.toDigits 10 n) := by
  unfold splitSign
  split
  next cs heq =>
    have hminus : '-' ∈ Nat.toDigits 10 n := by simp [heq]
    exact absurd (isDigit_of_mem_toDigits hminus) (by decide)
  next => rfl

/-! ### Written numbers -/

/-- **A natural number that is written reads back.** -/
theorem read?_toString_nat {n : Nat} (h : n ≤ maxMagnitude) :
    read? (toString n) = some (n : Int) := by
  have hsplit : splitSign (toString n).toList = (false, Nat.toDigits 10 n) := by
    rw [Nat.toString_eq_repr, Nat.toList_repr]
    exact splitSign_toDigits n
  exact read?_of_splitSign h hsplit

/-- **A number that is written reads back, with its sign.** -/
theorem read?_toString_int {n : Int} (h : n.natAbs ≤ maxMagnitude) :
    read? (toString n) = some n := by
  rw [Int.toString_eq_repr, Int.repr_eq_if]
  split
  next hn =>
    have hnat : ((n.toNat : Nat) : Int) = n := by omega
    rw [← Nat.toString_eq_repr, read?_toString_nat (by omega), hnat]
  next hn =>
    have hsplit : splitSign ("-" ++ (-n).toNat.repr).toList =
        (true, Nat.toDigits 10 (-n).toNat) := by
      rw [String.toList_append, Nat.toList_repr]
      rfl
    rw [read?_of_splitSign (by omega) hsplit, if_pos rfl]
    congr 1
    omega

end CursorMachine.Text.Numeral
