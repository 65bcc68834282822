/-!
# Number literals

A literal is an optional single minus sign, then an optional radix mark (`0x`, `0X` for sixteen,
`0b`, `0B` for two, none for ten), then one or more digits of that radix. Digits are ASCII, a
second sign is no digit, and leading zeros carry no meaning. The magnitude must stay within
`maxMagnitude`, so the least value is the negative of the greatest one.

The reader is split along the grammar: `splitSign`, `splitRadix`, then `magnitude?` over the digit
values. Each part can be stated on its own, and `read?` only composes them.
-/

namespace CursorMachine.Text.Numeral

/-- The three ways to write a magnitude. -/
inductive Radix where
  | binary
  | decimal
  | hexadecimal
  deriving DecidableEq, Repr

/-- The number that a radix counts in. -/
def Radix.base : Radix → Nat
  | .binary => 2
  | .decimal => 10
  | .hexadecimal => 16

/-- The largest magnitude a literal may denote: the largest signed 64-bit number. -/
def maxMagnitude : Nat := 0x7FFFFFFFFFFFFFFF

/-- The value of a character as a digit up to fifteen, in either letter case. -/
def digitValue? (c : Char) : Option Nat :=
  if '0' ≤ c ∧ c ≤ '9' then some (c.toNat - '0'.toNat)
  else if 'a' ≤ c ∧ c ≤ 'f' then some (c.toNat - 'a'.toNat + 10)
  else if 'A' ≤ c ∧ c ≤ 'F' then some (c.toNat - 'A'.toNat + 10)
  else none

/-- The value of a character as a digit of a radix. -/
def Radix.digit? (r : Radix) (c : Char) : Option Nat :=
  (digitValue? c).filter (· < r.base)

/-- Splits off the sign: `true` with what follows a leading minus, else `false` with everything. -/
def splitSign : List Char → Bool × List Char
  | '-' :: cs => (true, cs)
  | cs => (false, cs)

/-- Splits off the radix mark. Without one the digits are decimal, also after a leading zero. -/
def splitRadix : List Char → Radix × List Char
  | '0' :: 'x' :: cs => (.hexadecimal, cs)
  | '0' :: 'X' :: cs => (.hexadecimal, cs)
  | '0' :: 'b' :: cs => (.binary, cs)
  | '0' :: 'B' :: cs => (.binary, cs)
  | cs => (.decimal, cs)

/-- The number that a list of digits denotes after `acc`, most significant first; `none` when some
character is no digit of the radix. -/
def Radix.value? (r : Radix) (acc : Nat) : List Char → Option Nat
  | [] => some acc
  | c :: cs => (r.digit? c).bind fun d ↦ r.value? (acc * r.base + d) cs

/-- The magnitude that digits denote: there is at least one digit, and the number is within
`maxMagnitude`. -/
def Radix.magnitude? (r : Radix) (digits : List Char) : Option Nat :=
  if digits.isEmpty then none else (r.value? 0 digits).filter (· ≤ maxMagnitude)

/-- The number that a literal denotes, or `none` when the text is no literal. -/
def read? (text : String) : Option Int :=
  let (negative, unsigned) := splitSign text.toList
  let (radix, digits) := splitRadix unsigned
  (radix.magnitude? digits).map fun n ↦ if negative then -(n : Int) else n

example : read? "-0x10" = some (-16) := by decide +kernel
example : read? "010" = some 10 := by decide +kernel
example : read? "0x-1" = none := by decide +kernel

end CursorMachine.Text.Numeral
