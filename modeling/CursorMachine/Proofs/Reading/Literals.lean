import CursorMachine.Proofs.Reading.Operands
import Mathlib.Data.Nat.Digits.Defs

/-!
# The grammar of number literals

A `Literal` is a number as a program writes it: a sign or none, a radix mark or none, and at least
one digit. Letters, in the mark and among the digits, stand in either case, and leading zeros are
digits like any other. `Literal.text` is how it is written, and `Literal.value` what it denotes, by
the places of its digits (`Nat.ofDigits`). Nothing in them refers to the reader.

The reader takes a text apart in three cuts, and for each cut two lemmas say that it undoes one part
of how a literal is written, and nothing else: `splitSign_sign_append` and `eq_sign_append` for the
sign, `splitRadix_mark_append` and `exists_eq_mark_append` for the mark,
`Radix.magnitude?_eq_some_iff` for digits. From them, the texts that are read are those of the
literals within bounds, each with its value (`read?_eq_some_iff_literal`).
-/

namespace CursorMachine

namespace Text.Numeral

/-! ### Literals -/

/-- A digit of a radix, with the case it is written in when it is a letter. -/
structure Digit (r : Radix) where
  value : Fin r.base
  upper : Bool

/-- A letter in upper case, or as it is. -/
def inCase (upper : Bool) (c : Char) : Char :=
  if upper then c.toUpper else c

/-- A digit as written. -/
def Digit.char {r : Radix} (d : Digit r) : Char :=
  inCase d.upper (Nat.digitChar d.value)

/-- The number that digits denote, of which the last one counts ones. -/
def Digit.number {r : Radix} (ds : List (Digit r)) : Nat :=
  Nat.ofDigits r.base (ds.map fun d ↦ d.value.val).reverse

/-- The mark that tells a radix. -/
def Radix.mark (upper : Bool) : Radix → List Char
  | .binary => ['0', inCase upper 'b']
  | .decimal => []
  | .hexadecimal => ['0', inCase upper 'x']

/-- The sign of a literal. -/
def sign (negative : Bool) : List Char :=
  if negative then ['-'] else []

/-- A number as a program writes it. -/
structure Literal where
  negative : Bool
  radix : Radix
  /-- The letter of the mark is written in upper case. -/
  upperMark : Bool
  digits : List (Digit radix)
  digits_ne_nil : digits ≠ []

namespace Literal

variable (l : Literal)

/-- The literal as written, after its sign. -/
def unsigned : List Char :=
  l.radix.mark l.upperMark ++ l.digits.map Digit.char

/-- The literal as written. -/
def text : String :=
  .ofList (sign l.negative ++ l.unsigned)

/-- The number that the digits denote. -/
def magnitude : Nat :=
  Digit.number l.digits

/-- The number that the literal denotes. -/
def value : Int :=
  if l.negative then -(l.magnitude : Int) else l.magnitude

end Literal

/-! ### Digits -/

namespace Digit

variable {r : Radix}

theorem number_cons (d : Digit r) (ds : List (Digit r)) :
    number (d :: ds) = d.value * r.base ^ ds.length + number ds := by
  rw [number, List.map_cons, List.reverse_cons, Nat.ofDigits_append, Nat.ofDigits_singleton, number,
    List.length_reverse, List.length_map, Nat.add_comm, Nat.mul_comm]

theorem number_append_singleton (ds : List (Digit r)) (d : Digit r) :
    number (ds ++ [d]) = d.value + r.base * number ds := by
  rw [number, List.map_append, List.map_singleton, List.reverse_append, List.reverse_singleton,
    List.singleton_append, Nat.ofDigits_cons, number]

theorem number_replicate_zero_append (zeros : Nat) {zero : Digit r} (hzero : zero.value.val = 0)
    (ds : List (Digit r)) : number (List.replicate zeros zero ++ ds) = number ds := by
  have hzeros : Nat.ofDigits r.base (List.replicate zeros 0) = 0 := by
    induction zeros with
    | zero => rfl
    | succ zeros ih => rw [List.replicate_succ, Nat.ofDigits_cons, ih, Nat.mul_zero]
  rw [number, number, List.map_append, List.reverse_append, List.map_replicate,
    List.reverse_replicate, hzero, Nat.ofDigits_append, hzeros, Nat.mul_zero, Nat.add_zero]

end Digit

/-- Every digit that is written reads as its value. -/
theorem Radix.digit?_char {r : Radix} (d : Digit r) : r.digit? d.char = some d.value.val := by
  have hdigits : ∀ (v : Fin r.base) (upper : Bool),
      r.digit? (inCase upper (Nat.digitChar v)) = some v.val := by
    cases r <;> decide
  exact hdigits d.value d.upper

/-- A character that has a value as a digit is one, in one of the two cases. -/
theorem eq_inCase_of_digitValue? {c : Char} {v : Nat} (h : digitValue? c = some v) :
    ∃ upper, inCase upper (Nat.digitChar v) = c := by
  have htable : ∀ k ≤ 'f'.toNat, ∀ v ∈ digitValue? (Char.ofNat k),
      ∃ upper, inCase upper (Nat.digitChar v) = Char.ofNat k := by
    decide +kernel
  have hle : c.toNat ≤ 'f'.toNat := by
    have hto : ∀ {d : Char}, c ≤ d → c.toNat ≤ d.toNat :=
      fun hd ↦ UInt32.le_iff_toNat_le.1 (Char.le_def.1 hd)
    unfold digitValue? at h
    split at h
    next hc => exact (hto hc.2).trans (by decide)
    next =>
      split at h
      next hc => exact hto hc.2
      next =>
        split at h
        next hc => exact (hto hc.2).trans (by decide)
        next => cases h
  have hchar := htable c.toNat hle v
  rw [Char.ofNat_toNat] at hchar
  exact hchar h

/-- A character that reads as a digit of a radix is one. -/
theorem Radix.exists_char_eq {r : Radix} {c : Char} {v : Nat} (h : r.digit? c = some v) :
    ∃ d : Digit r, d.char = c ∧ d.value.val = v := by
  obtain ⟨hvalue, hlt⟩ := Option.filter_eq_some_iff.1 h
  obtain ⟨upper, hchar⟩ := eq_inCase_of_digitValue? hvalue
  exact ⟨⟨⟨v, of_decide_eq_true hlt⟩, upper⟩, hchar, rfl⟩

/-- **Digits denote the number that they write**, added to what stood before them. -/
theorem Radix.value?_map_char {r : Radix} (acc : Nat) (ds : List (Digit r)) :
    r.value? acc (ds.map Digit.char) = some (acc * r.base ^ ds.length + Digit.number ds) := by
  induction ds generalizing acc with
  | nil => simp [Radix.value?, Digit.number]
  | cons d ds ih =>
    rw [List.map_cons, Radix.value?, digit?_char, Option.bind_some, ih, Digit.number_cons,
      List.length_cons]
    congr 1
    ring

/-- What reads as digits is written in digits. -/
theorem Radix.exists_map_char_eq {r : Radix} {acc n : Nat} {cs : List Char}
    (h : r.value? acc cs = some n) : ∃ ds : List (Digit r), ds.map Digit.char = cs := by
  induction cs generalizing acc with
  | nil => exact ⟨[], rfl⟩
  | cons c cs ih =>
    obtain ⟨v, hv, hcs⟩ := Option.bind_eq_some_iff.1 h
    obtain ⟨d, hd, -⟩ := exists_char_eq hv
    obtain ⟨ds, hds⟩ := ih hcs
    exact ⟨d :: ds, by rw [List.map_cons, hd, hds]⟩

/-- **A magnitude is read from digits that write it**, if it is within bounds. -/
theorem Radix.magnitude?_eq_some_iff {r : Radix} {cs : List Char} {n : Nat} :
    r.magnitude? cs = some n ↔
      ∃ ds : List (Digit r), ds ≠ [] ∧ ds.map Digit.char = cs ∧ Digit.number ds = n ∧
        n ≤ maxMagnitude := by
  unfold Radix.magnitude?
  split
  next hnil =>
    obtain rfl := List.isEmpty_iff.1 hnil
    simp only [reduceCtorEq, false_iff, not_exists, List.map_eq_nil_iff]
    exact fun ds h ↦ h.1 h.2.1
  next hne =>
    rw [List.isEmpty_iff] at hne
    rw [Option.filter_eq_some_iff, decide_eq_true_eq]
    constructor
    · rintro ⟨hvalue, hle⟩
      obtain ⟨ds, rfl⟩ := exists_map_char_eq hvalue
      rw [value?_map_char, Nat.zero_mul, Nat.zero_add] at hvalue
      exact ⟨ds, mt List.map_eq_nil_iff.2 hne, rfl, Option.some.inj hvalue, hle⟩
    · rintro ⟨ds, -, rfl, rfl, hle⟩
      exact ⟨by rw [value?_map_char, Nat.zero_mul, Nat.zero_add], hle⟩

/-! ### Marks and signs -/

/-- A decimal digit is no letter. -/
theorem Digit.char_isDigit (d : Digit .decimal) : d.char.isDigit = true := by
  have hdigits : ∀ (v : Fin 10) (upper : Bool),
      (inCase upper (Nat.digitChar v)).isDigit = true := by
    decide
  exact hdigits d.value d.upper

/-- The radix is told by the mark, for digits that carry no mark of their own. -/
theorem splitRadix_mark_append (r : Radix) (upper : Bool) (ds : List (Digit r)) :
    splitRadix (r.mark upper ++ ds.map Digit.char) = (r, ds.map Digit.char) := by
  cases r with
  | decimal =>
    refine splitRadix_of_isDigit fun c hc ↦ ?_
    obtain ⟨d, -, rfl⟩ := List.mem_map.1 hc
    exact d.char_isDigit
  | binary => cases upper <;> rfl
  | hexadecimal => cases upper <;> rfl

/-- What the radix is told by is the mark. -/
theorem exists_eq_mark_append (cs : List Char) :
    ∃ upper, cs = (splitRadix cs).1.mark upper ++ (splitRadix cs).2 := by
  unfold splitRadix
  split
  · exact ⟨false, rfl⟩
  · exact ⟨true, rfl⟩
  · exact ⟨false, rfl⟩
  · exact ⟨true, rfl⟩
  · exact ⟨false, rfl⟩

theorem eq_sign_append (cs : List Char) : cs = sign (splitSign cs).1 ++ (splitSign cs).2 := by
  unfold splitSign
  split <;> rfl

/-- A sign is split off what does not start with one. -/
theorem splitSign_sign_append {negative : Bool} {cs : List Char} (h : cs.head? ≠ some '-') :
    splitSign (sign negative ++ cs) = (negative, cs) := by
  cases negative
  · rw [sign, if_neg Bool.false_ne_true, List.nil_append]
    unfold splitSign
    split
    · exact absurd rfl h
    · rfl
  · rfl

namespace Literal

theorem head?_unsigned_ne (l : Literal) : l.unsigned.head? ≠ some '-' := by
  obtain ⟨negative, radix, upperMark, digits, hne⟩ := l
  obtain ⟨d, ds, rfl⟩ := List.exists_cons_of_ne_nil hne
  cases radix with
  | decimal =>
    intro hhead
    have hchar : d.char = '-' := Option.some.inj hhead
    exact absurd (hchar ▸ d.char_isDigit) (by decide)
  | binary => cases upperMark <;> exact fun hhead ↦ absurd (Option.some.inj hhead) (by decide)
  | hexadecimal => cases upperMark <;> exact fun hhead ↦ absurd (Option.some.inj hhead) (by decide)

end Literal

/-- **A text reads as a number exactly when it is a literal that denotes it**, within bounds. -/
theorem read?_eq_some_iff_literal {text : String} {n : Int} :
    read? text = some n ↔
      ∃ l : Literal, l.text = text ∧ l.magnitude ≤ maxMagnitude ∧ l.value = n := by
  rw [read?_eq_some_iff]
  constructor
  · rintro ⟨m, hm, rfl⟩
    obtain ⟨ds, hne, hds, rfl, hle⟩ := Radix.magnitude?_eq_some_iff.1 hm
    obtain ⟨upper, hmark⟩ := exists_eq_mark_append (splitSign text.toList).2
    refine ⟨⟨(splitSign text.toList).1, _, upper, ds, hne⟩, ?_, hle, rfl⟩
    rw [Literal.text, Literal.unsigned]
    dsimp only
    rw [hds, ← hmark, ← eq_sign_append, String.ofList_toList]
  · rintro ⟨l, rfl, hle, rfl⟩
    have hsign : splitSign l.text.toList = (l.negative, l.unsigned) := by
      rw [Literal.text, String.toList_ofList, splitSign_sign_append l.head?_unsigned_ne]
    have hradix : splitRadix l.unsigned = (l.radix, l.digits.map Digit.char) :=
      splitRadix_mark_append l.radix l.upperMark l.digits
    refine ⟨l.magnitude, ?_, by rw [hsign]; rfl⟩
    rw [hsign, hradix]
    exact Radix.magnitude?_eq_some_iff.2 ⟨l.digits, l.digits_ne_nil, rfl, rfl, hle⟩

/-! ### Numbers that are written -/

/-- A number written in a radix, with leading zeros, and letters in the cases that are asked for. -/
def spelling (r : Radix) (upperMark upper : Bool) (zeros : Nat) (n : Int) : String :=
  .ofList (sign (n < 0) ++ (r.mark upperMark ++
    (List.replicate zeros '0' ++ (Nat.toDigits r.base n.natAbs).map (inCase upper))))

/-- A number has digits in every radix, with letters in either case. -/
theorem exists_map_char_eq_toDigits (r : Radix) (upper : Bool) (n : Nat) :
    ∃ ds : List (Digit r), ds ≠ [] ∧
      ds.map Digit.char = (Nat.toDigits r.base n).map (inCase upper) ∧ Digit.number ds = n := by
  have hbase : 1 < r.base := by cases r <;> decide
  induction n using Nat.strong_induction_on with
  | _ n ih =>
    let last : Digit r := ⟨⟨n % r.base, Nat.mod_lt n (by omega)⟩, upper⟩
    rcases Nat.lt_or_ge n r.base with hlt | hle
    · have hn : n % r.base = n := Nat.mod_eq_of_lt hlt
      refine ⟨[last], List.cons_ne_nil _ _, ?_, ?_⟩
      · rw [Nat.toDigits_of_lt_base hlt, ← hn]
        simp [last, Digit.char]
      · rw [Digit.number_cons, List.length_nil, Nat.pow_zero, Nat.mul_one]
        exact hn
    · obtain ⟨ds, -, hchars, hnumber⟩ := ih (n / r.base) (Nat.div_lt_self (by omega) hbase)
      refine ⟨ds ++ [last], by simp, ?_, ?_⟩
      · rw [Nat.toDigits_of_base_le hbase hle, List.map_append, List.map_append, hchars]
        rfl
      · rw [Digit.number_append_singleton, hnumber]
        exact Nat.mod_add_div n r.base

/-- **A number reads back from every way to write it.** -/
theorem read?_spelling {n : Int} (h : n.natAbs ≤ maxMagnitude) (r : Radix)
    (upperMark upper : Bool) (zeros : Nat) :
    read? (spelling r upperMark upper zeros n) = some n := by
  obtain ⟨ds, hne, hchars, hnumber⟩ := exists_map_char_eq_toDigits r upper n.natAbs
  let zero : Digit r := ⟨⟨0, by cases r <;> decide⟩, false⟩
  let l : Literal := ⟨n < 0, r, upperMark, List.replicate zeros zero ++ ds, by simp [hne]⟩
  have hmagnitude : l.magnitude = n.natAbs :=
    (Digit.number_replicate_zero_append zeros rfl ds).trans hnumber
  refine read?_eq_some_iff_literal.2 ⟨l, ?_, by rwa [hmagnitude], ?_⟩
  · rw [Literal.text, Literal.unsigned, List.map_append, List.map_replicate, hchars]
    rfl
  · rw [Literal.value, hmagnitude]
    simp only [l, decide_eq_true_eq]
    split <;> omega

end Text.Numeral

namespace Instruction

open Text.Numeral

/-- **A number is read from the literals that denote it, and from nothing else.** A text that is no
literal, or one of `2 ^ 63` or more, is blamed as it stands. So a number reads back from its decimal
text, and from everything else it can be written as: in each radix, with letters in either case and
with any number of leading zeros. -/
theorem number_eq_ok_iff_literal (line : Nat) :
    (∀ text n, number line text = .ok n ↔
      ∃ l : Literal, l.text = text ∧ l.magnitude < 2 ^ 63 ∧ l.value = n) ∧
    (∀ text, (¬∃ l : Literal, l.text = text ∧ l.magnitude < 2 ^ 63) →
      number line text = .error (.invalidNumber line text)) ∧
    ∀ n : Int, n.natAbs < 2 ^ 63 → number line (toString n) = .ok n ∧
      ∀ r upperMark upper zeros, number line (spelling r upperMark upper zeros n) = .ok n := by
  have hbound : ∀ k, k < 2 ^ 63 ↔ k ≤ maxMagnitude := fun k ↦ Nat.lt_succ_iff
  have hok : ∀ text n, number line text = .ok n ↔
      ∃ l : Literal, l.text = text ∧ l.magnitude < 2 ^ 63 ∧ l.value = n := by
    intro text n
    simp only [number_eq_ok_iff, read?_eq_some_iff_literal, hbound]
  refine ⟨hok, fun text hnone ↦ ?_, fun n hn ↦ ?_⟩
  · rcases hread : read? text with - | n
    · rw [number, hread]
    · obtain ⟨l, htext, hle, -⟩ := (hok text n).1 (number_eq_ok_iff.2 hread)
      exact absurd ⟨l, htext, hle⟩ hnone
  · have hle := (hbound _).1 hn
    exact ⟨number_eq_ok_iff.2 (read?_toString_int hle),
      fun r upperMark upper zeros ↦ number_eq_ok_iff.2 (read?_spelling hle r upperMark upper zeros)⟩

/-- A literal in mixed case with a sign and leading zeros, a text with a sign too many, a magnitude
that is one too large, and a number written in binary. -/
theorem number_eq_ok_iff_literal_each :
    number 7 "-0X00fF" = .ok (-255) ∧
      number 7 "0x-1" = .error (.invalidNumber 7 "0x-1") ∧
      number 7 "-9223372036854775808" = .error (.invalidNumber 7 "-9223372036854775808") ∧
      spelling .binary true false 3 (-5) = "-0B000101" ∧ number 7 "-0B000101" = .ok (-5) := by
  obtain ⟨hok, herror, hspelled⟩ := number_eq_ok_iff_literal 7
  let l : Literal := ⟨true, .hexadecimal, true,
    [⟨⟨0, by decide⟩, false⟩, ⟨⟨0, by decide⟩, false⟩, ⟨⟨15, by decide⟩, false⟩,
      ⟨⟨15, by decide⟩, true⟩], List.cons_ne_nil _ _⟩
  have hno : ∀ {text}, read? text = none →
      ¬∃ l : Literal, l.text = text ∧ l.magnitude < 2 ^ 63 := by
    rintro text hread ⟨l, htext, hlt⟩
    have hread' := number_eq_ok_iff.1 ((hok text l.value).2 ⟨l, htext, hlt, rfl⟩)
    rw [hread] at hread'
    cases hread'
  have hbinary : spelling .binary true false 3 (-5) = "-0B000101" := by decide +kernel
  refine ⟨(hok _ _).2 ⟨l, by decide +kernel, by decide +kernel, by decide +kernel⟩,
    herror _ (hno (by decide +kernel)), herror _ (hno (by decide +kernel)), hbinary, ?_⟩
  rw [← hbinary]
  exact (hspelled (-5) (by decide)).2 .binary true false 3

end Instruction

end CursorMachine
