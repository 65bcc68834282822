/-!
# Decimal numbers in arguments

Numbers given on the command line are plain decimals within a range. A plus sign may lead, and a
minus sign when the range has negative numbers; in a range without any, a minus is a character like
another, and no digit. A sign alone is no number.

The text is read from left to right and the first fault is reported. At a character that would both
be no digit and come after too large a number, that number was at fault already.
-/

namespace CursorMachine.CommandLine

namespace Decimal

/-- Why a text is no number of the range. -/
inductive Fault where
  | empty
  | invalidDigit
  | tooLarge
  | tooSmall
  deriving DecidableEq, Repr

/-- The wording of a fault. -/
def Fault.message : Fault → String
  | .empty => "cannot parse integer from empty string"
  | .invalidDigit => "invalid digit found in string"
  | .tooLarge => "number too large to fit in target type"
  | .tooSmall => "number too small to fit in target type"

/-- The numbers from `least` to `greatest`, where zero is in between. -/
structure Range where
  least : Int
  greatest : Int
  deriving DecidableEq, Repr

/-- Sizes: what 64 bits hold without a sign. -/
def sizes : Range := ⟨0, 0xFFFFFFFFFFFFFFFF⟩

/-- Cell values: what 32 bits hold with a sign. -/
def cellValues : Range := ⟨-0x80000000, 0x7FFFFFFF⟩

/-- Reads digits after `acc`. A number above `bound` is at fault with `excess`. -/
def magnitude (bound : Nat) (excess : Fault) (acc : Nat) : List Char → Except Fault Nat
  | [] => .ok acc
  | c :: cs =>
    if !c.isDigit then .error .invalidDigit
    else
      let n := acc * 10 + (c.toNat - '0'.toNat)
      if bound < n then .error excess else magnitude bound excess n cs

/-- Reads a number of the range. -/
def read (range : Range) (text : String) : Except Fault Int :=
  match text.toList with
  | [] => .error .empty
  | ['+'] | ['-'] => .error .invalidDigit
  | '+' :: cs => positive cs
  | '-' :: cs =>
    if range.least < 0 then
      (magnitude range.least.natAbs .tooSmall 0 cs).map fun n ↦ -(n : Int)
    else positive ('-' :: cs)
  | cs => positive cs
where
  /-- Reads a number from zero on. -/
  positive (cs : List Char) : Except Fault Int :=
    (magnitude range.greatest.toNat .tooLarge 0 cs).map Int.ofNat

end Decimal

end CursorMachine.CommandLine
