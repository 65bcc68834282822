import CursorMachine.Proofs.Reading.Operands

/-!
# Printable texts

Everything a program is written with is printable ASCII: keywords, numbers and names, and so is
every instruction (`Instruction.printable_text`). A printable text has no line feed, so it stays on
its line wherever it is put.
-/

namespace CursorMachine

namespace Text

/-- The visible part of ASCII, and the space. -/
def isPrintable (c : Char) : Bool :=
  32 ≤ c.toNat && c.toNat ≤ 126

/-- A text of printable characters. -/
def Printable (s : String) : Prop := s.toList.all isPrintable = true

theorem Printable.append {s t : String} (hs : Printable s) (ht : Printable t) :
    Printable (s ++ t) := by
  rw [Printable, String.toList_append, List.all_append, hs, ht]
  rfl

theorem isPrintable_of_isIdentifierTail {c : Char} (h : isIdentifierTail c = true) :
    isPrintable c = true := by
  have := toNat_of_isIdentifierTail h
  simp only [isPrintable, Bool.and_eq_true, decide_eq_true_eq]
  omega

theorem printable_of_isIdentifier {name : String} (h : isIdentifier name = true) :
    Printable name :=
  List.all_eq_true.2 fun _ hc ↦
    isPrintable_of_isIdentifierTail (isIdentifierTail_of_mem h hc)

theorem isIdentifierTail_of_isDigit {c : Char} (h : c.isDigit = true) :
    isIdentifierTail c = true := by
  simp [isIdentifierTail, Char.isAlphanum, h]

/-- A natural number is written with digits. -/
theorem isIdentifierTail_of_mem_nat {n : Nat} {c : Char} (hc : c ∈ (toString n).toList) :
    isIdentifierTail c = true := by
  rw [Nat.toString_eq_repr, Nat.toList_repr] at hc
  exact isIdentifierTail_of_isDigit (Numeral.isDigit_of_mem_toDigits hc)

/-- A number is written with digits, and a sign when it is negative. -/
theorem isIdentifierTail_of_mem_int {n : Int} {c : Char} (hc : c ∈ (toString n).toList) :
    c = '-' ∨ isIdentifierTail c = true := by
  rw [Int.toString_eq_repr, Int.repr_eq_if] at hc
  split at hc
  · exact .inr (isIdentifierTail_of_mem_nat hc)
  · rw [String.toList_append] at hc
    rcases List.mem_append.1 hc with hsign | hdigit
    · exact .inl (by simpa using hsign)
    · exact .inr (isIdentifierTail_of_mem_nat hdigit)

theorem printable_nat (n : Nat) : Printable (toString n) :=
  List.all_eq_true.2 fun _ hc ↦ isPrintable_of_isIdentifierTail (isIdentifierTail_of_mem_nat hc)

theorem printable_int (n : Int) : Printable (toString n) := by
  refine List.all_eq_true.2 fun c hc ↦ ?_
  rcases isIdentifierTail_of_mem_int hc with rfl | htail
  · decide
  · exact isPrintable_of_isIdentifierTail htail

theorem printable_join {ws : List String} (h : ∀ w ∈ ws, Printable w) :
    Printable (String.join ws) := by
  induction ws with
  | nil => exact rfl
  | cons w ws ih =>
    rw [String.join_cons]
    exact .append (h w (by simp)) (ih fun v hv ↦ h v (by simp [hv]))

/-- Printable words with a printable text between them. -/
theorem printable_intercalate {between : String} (hbetween : Printable between) {ws : List String}
    (h : ∀ w ∈ ws, Printable w) : Printable (between.intercalate ws) := by
  induction ws with
  | nil => exact rfl
  | cons w ws ih =>
    rcases eq_or_ne ws [] with rfl | hne
    · rw [String.intercalate_singleton]
      exact h w (by simp)
    · rw [String.intercalate_cons_of_ne_nil hne]
      exact .append (.append (h w (by simp)) hbetween) (ih fun v hv ↦ h v (by simp [hv]))

theorem lineFeed_not_mem_of_printable {s : String} (h : Printable s) : '\n' ∉ s.toList :=
  fun hmem ↦ absurd (List.all_eq_true.1 h _ hmem) (by decide)

end Text

open Text (Printable)

theorem Keyword.printable_phrase (k : Keyword) : Printable k.phrase := by
  have hall : all.all (fun k ↦ k.phrase.toList.all Text.isPrintable) = true := by rfl
  exact List.all_eq_true.1 hall k (mem_all k)

/-- **A written instruction is printable.** -/
theorem Instruction.printable_text {i : Instruction} (h : i.InRange) : Printable i.text := by
  refine Text.printable_intercalate (show Printable " " from rfl) fun w hw ↦ ?_
  rcases List.mem_cons.1 hw with rfl | hw
  · exact i.keyword.printable_phrase
  · exact forall_mem_operands Text.printable_nat Text.printable_int
      (fun _ ↦ Text.printable_of_isIdentifier) h w hw

end CursorMachine
