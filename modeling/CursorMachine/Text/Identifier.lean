/-!
# Identifiers

The names a program may give to a function, and the names an assembly entry may have. An identifier
starts with an ASCII letter or an underscore and goes on with ASCII letters, digits and underscores,
to the very end of the text.
-/

namespace CursorMachine.Text

/-- A character that may start an identifier. -/
def isIdentifierHead (c : Char) : Bool :=
  c.isAlpha || c == '_'

/-- A character that may stand in an identifier after its first place. -/
def isIdentifierTail (c : Char) : Bool :=
  c.isAlphanum || c == '_'

/-- The whole text is an identifier. -/
def isIdentifier (name : String) : Bool :=
  match name.toList with
  | [] => false
  | c :: cs => isIdentifierHead c && cs.all isIdentifierTail

theorem isIdentifierTail_of_head {c : Char} (h : isIdentifierHead c = true) :
    isIdentifierTail c = true := by
  simp only [isIdentifierHead, isIdentifierTail, Char.isAlphanum, Bool.or_eq_true] at *
  exact h.imp_left Or.inl

/-- Where the characters of identifiers stand in ASCII. -/
theorem toNat_of_isIdentifierTail {c : Char} (h : isIdentifierTail c = true) :
    (48 ≤ c.toNat ∧ c.toNat ≤ 57) ∨ (65 ≤ c.toNat ∧ c.toNat ≤ 90) ∨ c.toNat = 95 ∨
      (97 ≤ c.toNat ∧ c.toNat ≤ 122) := by
  have hranges : isIdentifierTail c = ((decide (65 ≤ c.val ∧ c.val ≤ 90) ||
      decide (97 ≤ c.val) && decide (c.val ≤ 122) ||
      decide (48 ≤ c.val) && decide (c.val ≤ 57)) || c == '_') := rfl
  simp only [hranges, Bool.or_eq_true, Bool.and_eq_true, decide_eq_true_eq, beq_iff_eq,
    UInt32.le_iff_toNat_le] at h
  rcases h with h | rfl
  · change ((65 ≤ c.toNat ∧ c.toNat ≤ 90) ∨ (97 ≤ c.toNat ∧ c.toNat ≤ 122)) ∨
      (48 ≤ c.toNat ∧ c.toNat ≤ 57) at h
    omega
  · decide

theorem isIdentifierTail_of_mem {name : String} (h : isIdentifier name = true) {c : Char}
    (hc : c ∈ name.toList) : isIdentifierTail c = true := by
  unfold isIdentifier at h
  split at h
  · cases h
  next d ds hname =>
    obtain ⟨hd, hds⟩ := Bool.and_eq_true_iff.1 h
    rw [hname] at hc
    rcases List.mem_cons.1 hc with rfl | hc
    · exact isIdentifierTail_of_head hd
    · exact List.all_eq_true.1 hds c hc

theorem ne_nil_of_isIdentifier {name : String} (h : isIdentifier name = true) :
    name.toList ≠ [] := by
  intro hnil
  rw [isIdentifier, hnil] at h
  cases h

end CursorMachine.Text
