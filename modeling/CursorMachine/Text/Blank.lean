/-!
# Blank characters, words and lines

A program text is read as lines of words. This module fixes the three notions every later reader
relies on: which characters are *blank*, what the *words* of a line are, and where a *line* ends.

* `isBlank c` holds for the twenty-five code points with the Unicode property `White_Space`, and
  for no other. The table is written as ranges, in ascending order.
* `words cs` are the maximal runs of characters that are not blank, in order.
* `lines cs` are the pieces between line feeds. A carriage return before a line feed is a blank of
  its own, so it never reaches a word and needs no rule here.

Both cuts are `List.splitOnP`, which cuts at every character of a class and keeps empty pieces;
words are the pieces that are not empty.
-/

namespace CursorMachine.Text

/-- The code points with the property `White_Space`, as closed ranges. -/
def blankRanges : List (Nat × Nat) :=
  [(0x0009, 0x000D), (0x0020, 0x0020), (0x0085, 0x0085), (0x00A0, 0x00A0), (0x1680, 0x1680),
    (0x2000, 0x200A), (0x2028, 0x2029), (0x202F, 0x202F), (0x205F, 0x205F), (0x3000, 0x3000)]

/-- A character is blank when its code point has the property `White_Space`. -/
def isBlank (c : Char) : Bool :=
  blankRanges.any fun r ↦ r.1 ≤ c.toNat && c.toNat ≤ r.2

/-! ### Cutting -/

/-- The words of a line: its maximal runs without a blank. -/
def words (cs : List Char) : List (List Char) :=
  (cs.splitOnP isBlank).filter fun w ↦ !w.isEmpty

/-- The lines of a text. A final line feed leaves an empty last line, which holds no word. -/
def lines (cs : List Char) : List (List Char) :=
  cs.splitOn '\n'

end CursorMachine.Text
