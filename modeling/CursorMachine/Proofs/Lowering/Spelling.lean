import CursorMachine.Proofs.Lowering.Assembler
import CursorMachine.Proofs.Reading.Display

/-!
# Spelled lines that are read

The other half of `Proofs/Lowering/Assembler.lean`: what `Line.text` spells reads back as the line
(`Line.read?_text`), and a text of spelled lines as the lines (`readAll?_text`), with names for
labels (`Line.named`). Labels must be identifiers and remarks must be printable; then so is
everything (`printable_text`), and no line ends too early.

A spelled line alternates between words and gaps of signs and blanks, and a word that is followed by
a gap is told apart from it (`lexemes_word_gap`). The proofs below say where the gaps are.
-/

namespace CursorMachine.Arm

/-! ### Words and gaps -/

/-- A word: not empty, and made of characters of words. -/
def IsName (cs : List Char) : Prop := cs ≠ [] ∧ cs.all inWord = true

instance (cs : List Char) : Decidable (IsName cs) :=
  inferInstanceAs (Decidable (cs ≠ [] ∧ cs.all inWord = true))

/-- Signs and blanks, at least one of them: what stands between words. -/
def IsGap (cs : List Char) : Prop := cs ≠ [] ∧ cs.all (fun c ↦ !inWord c) = true

instance (cs : List Char) : Decidable (IsGap cs) :=
  inferInstanceAs (Decidable (cs ≠ [] ∧ cs.all (fun c ↦ !inWord c) = true))

/-- The signs of a gap. -/
def signs (cs : List Char) : List Lexeme :=
  cs.filterMap fun c ↦ (Sign.ofChar? c).map .sign

theorem lexemes_gap {gap : List Char} (hgap : IsGap gap) (rest : List Char) :
    lexemes (gap ++ rest) = signs gap ++ lexemes rest := by
  obtain ⟨-, hall⟩ := hgap
  induction gap with
  | nil => rfl
  | cons c gap ih =>
    obtain ⟨hc, hall⟩ := Bool.and_eq_true_iff.1 hall
    have hstep : lexemes (c :: gap ++ rest) =
        (Sign.ofChar? c).toList.map .sign ++ lexemes (gap ++ rest) := by
      rw [lexemes, List.cons_append, lexemesAfter, if_neg (by simpa using hc)]
      rfl
    rw [hstep, ih hall, signs, signs, List.filterMap_cons, ← List.append_assoc]
    cases Sign.ofChar? c <;> rfl

theorem lexemesAfter_append {word w rest : List Char} (hw : w.all inWord = true) :
    lexemesAfter word (w ++ rest) = lexemesAfter (w.reverse ++ word) rest := by
  induction w generalizing word with
  | nil => rfl
  | cons c w ih =>
    obtain ⟨hc, hw⟩ := Bool.and_eq_true_iff.1 hw
    rw [List.cons_append, lexemesAfter, if_pos hc, ih hw, List.reverse_cons, List.append_assoc]
    rfl

/-- A word ends where a gap or the end of the line follows. -/
def EndsWord (cs : List Char) : Prop := cs.head?.all (fun c ↦ !inWord c) = true

instance (cs : List Char) : Decidable (EndsWord cs) :=
  inferInstanceAs (Decidable (cs.head?.all (fun c ↦ !inWord c) = true))

theorem endsWord_gap {gap : List Char} (hgap : IsGap gap) (rest : List Char) :
    EndsWord (gap ++ rest) := by
  rcases gap with - | ⟨c, gap⟩
  · exact absurd rfl hgap.1
  · exact (Bool.and_eq_true_iff.1 hgap.2).1

/-- **A word is told apart from what follows**, when what follows ends it. -/
theorem lexemes_append {w rest : List Char} (hw : IsName w) (hrest : EndsWord rest) :
    lexemes (w ++ rest) = .word w :: lexemes rest := by
  have hended : Lexeme.ended w.reverse = [.word w] := by
    simp [Lexeme.ended, hw.1]
  rw [lexemes, lexemesAfter_append hw.2, List.append_nil]
  rcases rest with - | ⟨c, cs⟩
  · exact hended
  · have hc : inWord c = false := by simpa [EndsWord] using hrest
    simp only [lexemes, lexemesAfter, hc, hended]
    rfl

theorem lexemes_word {w : List Char} (hw : IsName w) : lexemes w = [.word w] := by
  have hlast : lexemes (w ++ []) = .word w :: lexemes [] := lexemes_append hw rfl
  rwa [List.append_nil] at hlast

theorem lexemes_word_gap {w : List Char} (hw : IsName w) {gap : List Char} (hgap : IsGap gap)
    (rest : List Char) :
    lexemes (w ++ (gap ++ rest)) = .word w :: (signs gap ++ lexemes rest) := by
  rw [lexemes_append hw (endsWord_gap hgap rest), lexemes_gap hgap]

/-! ### What is read back -/

/-- A label that is known by its text. -/
def Label.named (l : Label) : Label := .entry l.text

/-- An operation with names for labels. -/
def Operation.named : Operation → Operation
  | .branch c target => .branch c target.named
  | .call target => .call target.named
  | o => o

/-- The label that a line sets or refers to. -/
def Line.mentioned? : Line → Option Label
  | .label l | .directive (.visible l) | .operation (.branch _ l) | .operation (.call l) => some l
  | _ => none

/-- A line with names for labels. -/
def Line.named : Line → Line
  | .label l => .label l.named
  | .directive (.visible l) => .directive (.visible l.named)
  | .operation o => .operation o.named
  | l => l

/-! ### Words of a spelled line -/

theorem inWord_of_isIdentifierTail {c : Char} (h : Text.isIdentifierTail c = true) :
    inWord c = true := by
  have hsign : Sign.ofChar? c = none := by
    unfold Sign.ofChar?
    split <;> first | rfl | exact absurd h (by decide)
  rw [inWord, Text.isBlank_of_isIdentifierTail h, hsign]
  rfl

theorem isName_of_isIdentifier {name : String} (h : Text.isIdentifier name = true) :
    IsName name.toList :=
  ⟨Text.ne_nil_of_isIdentifier h, List.all_eq_true.2 fun _ hc ↦
    inWord_of_isIdentifierTail (Text.isIdentifierTail_of_mem h hc)⟩

theorem isName_toString (n : Nat) : IsName (toString n).toList :=
  ⟨(Text.isWord_toString_nat n).1, List.all_eq_true.2 fun _ hc ↦
    inWord_of_isIdentifierTail (Text.isIdentifierTail_of_mem_nat hc)⟩

theorem isName_register (r : Register) : IsName r.text.toList := by
  cases r <;> decide

@[simp]
theorem register?_text (r : Register) : register? r.text.toList = some r := by
  cases r <;> rfl

@[simp]
theorem decimal?_toString (n : Nat) : decimal? (toString n).toList = some n := by
  rw [Nat.toString_eq_repr, Nat.toList_repr, decimal?,
    Text.Numeral.value?_of_isDigit fun c ↦ Text.Numeral.isDigit_of_mem_toDigits,
    Nat.ofDigitChars_ten_toDigits]

/-! ### Operands of a spelled line -/

theorem operand?_text (o : Operand) : operand? (lexemes o.text.toList) = some o := by
  cases o with
  | immediate n =>
    have hlexemes : lexemes (Operand.immediate n).text.toList =
        [.sign .hash, .word (toString n.toNat).toList] := by
      show lexemes ("#" ++ toString n.toNat).toList = _
      rw [String.toList_append, lexemes_gap (by decide), lexemes_word (isName_toString _)]
      rfl
    rw [hlexemes, operand?, decimal?_toString, Option.map_some, UInt32.ofNat_toNat]
  | register r =>
    rw [Operand.text, lexemes_word (isName_register r), operand?, register?_text]
    rfl
  | shifted r bits =>
    have hlexemes : lexemes (Operand.shifted r bits).text.toList =
        [.word r.text.toList, .sign .comma, .word "lsl".toList, .sign .hash,
          .word (toString bits).toList] := by
      show lexemes (r.text ++ ", lsl #" ++ toString bits).toList = _
      have hshift : ", lsl #".toList ++ (toString bits).toList =
        ", ".toList ++ ("lsl".toList ++ (" #".toList ++ (toString bits).toList)) := rfl
      rw [String.toList_append, String.toList_append, List.append_assoc, hshift,
        lexemes_word_gap (isName_register r) (by decide),
        lexemes_word_gap (by decide) (by decide), lexemes_word (isName_toString _)]
      rfl
    rw [hlexemes, operand?, register?_text, decimal?_toString]
    rfl

theorem constant?_toString (n : Int) {rest : List Char} (hrest : EndsWord rest) :
    constant? (lexemes ((toString n).toList ++ rest)) = some (n, lexemes rest) := by
  rw [Int.toString_eq_repr, Int.repr_eq_if]
  split
  · rw [← Nat.toString_eq_repr, lexemes_append (isName_toString _) hrest, constant?,
      decimal?_toString, Option.map_some, Int.toNat_of_nonneg ‹_›]
  · rw [← Nat.toString_eq_repr, String.toList_append, List.append_assoc, lexemes_gap (by decide),
      lexemes_append (isName_toString _) hrest]
    show (decimal? _).map _ = _
    rw [decimal?_toString, Option.map_some, Int.toNat_of_nonneg (by omega), Int.neg_neg]

/-- The first register of an address is read, whatever gap follows it. -/
theorem address?_base (base : Register) {gap : List Char} (hgap : IsGap gap) (rest : List Char) :
    address? (lexemes ("[".toList ++ (base.text.toList ++ (gap ++ rest)))) =
      afterBase? base (signs gap ++ lexemes rest) := by
  rw [lexemes_gap (by decide), lexemes_word_gap (isName_register base) hgap]
  show (register? _).bind _ = _
  rw [register?_text, Option.bind_some]

theorem address?_text (a : Address) : address? (lexemes a.text.toList) = some a := by
  cases a with
  | offset base distance =>
    rw [Address.text]
    split
    next hzero =>
      show address? (lexemes ("[" ++ base.text ++ "]").toList) = _
      rw [hzero, String.toList_append, String.toList_append, List.append_assoc,
        ← List.append_nil "]".toList, address?_base base (by decide)]
      rfl
    next =>
      show address? (lexemes ("[" ++ base.text ++ ", #" ++ toString distance ++ "]").toList) = _
      simp only [String.toList_append, List.append_assoc]
      rw [address?_base base (by decide)]
      show (constant? (lexemes ((toString distance).toList ++ "]".toList))).bind _ = _
      rw [constant?_toString distance (by decide)]
      rfl
  | below base distance =>
    show address? (lexemes ("[" ++ base.text ++ ", -" ++ distance.text ++ "]").toList) = _
    simp only [String.toList_append, List.append_assoc]
    rw [address?_base base (by decide), lexemes_append (isName_register distance) (by decide)]
    show (register? _).map _ = _
    rw [register?_text, Option.map_some]
  | preIndexed base distance =>
    show address? (lexemes ("[" ++ base.text ++ ", #" ++ toString distance ++ "]!").toList) = _
    simp only [String.toList_append, List.append_assoc]
    rw [address?_base base (by decide)]
    show (constant? (lexemes ((toString distance).toList ++ "]!".toList))).bind _ = _
    rw [constant?_toString distance (by decide)]
    rfl
  | postIndexed base distance =>
    show address? (lexemes ("[" ++ base.text ++ "], #" ++ toString distance).toList) = _
    simp only [String.toList_append, List.append_assoc]
    rw [address?_base base (by decide), ← List.append_nil (toString distance).toList]
    show (constant? (lexemes ((toString distance).toList ++ []))).bind _ = _
    rw [constant?_toString distance (by decide)]
    rfl

/-! ### Statements of a spelled line -/

theorem oneRegister_text (f : Register → List Lexeme → Option Operation) (r : Register)
    (rest : List Char) :
    oneRegister f (lexemes (r.text.toList ++ (", ".toList ++ rest))) = f r (lexemes rest) := by
  rw [lexemes_word_gap (isName_register r) (by decide)]
  show (register? _).bind _ = _
  rw [register?_text]
  rfl

theorem lastRegister_text (f : Register → Operation) (r : Register) :
    lastRegister f (lexemes r.text.toList) = some (f r) := by
  rw [lexemes_word (isName_register r), lastRegister, register?_text, Option.map_some]

theorem lastConstant_text (f : Nat → Operation) (n : Nat) :
    lastConstant f (lexemes ("#".toList ++ (toString n).toList)) = some (f n) := by
  rw [lexemes_gap (by decide), lexemes_word (isName_toString n)]
  show (decimal? _).map _ = _
  rw [decimal?_toString, Option.map_some]

theorem lastName_text (f : Label → Operation) {l : Label} (h : IsName l.text.toList) :
    lastName f (lexemes l.text.toList) = some (f l.named) := by
  rw [lexemes_word h, lastName, String.ofList_toList, Label.named]

theorem registerList_text (f : Register → Register → Register → Operation)
    (first last more : Register) :
    registerList f (lexemes (Operation.registerList first last more).toList) =
      some (f first last more) := by
  have htext : (Operation.registerList first last more).toList =
      "\x7b".toList ++ (first.text.toList ++ ("-".toList ++ (last.text.toList ++
        (", ".toList ++ (more.text.toList ++ ("\x7d".toList ++ [])))))) := by
    rw [Operation.registerList]
    simp [String.toList_append, toString]
  rw [htext, lexemes_gap (by decide), lexemes_word_gap (isName_register first) (by decide),
    lexemes_word_gap (isName_register last) (by decide),
    lexemes_word_gap (isName_register more) (by decide)]
  show (register? _).bind _ = _
  simp

/-- **An operation reads back from its mnemonic and its operands.** -/
theorem exists_lookup_mnemonic (o : Operation)
    (h : ∀ l ∈ (Line.operation o).mentioned?, IsName l.text.toList) :
    ∃ f, mnemonics.lookup o.mnemonic = some f ∧ f (lexemes o.operands.toList) = some o.named := by
  have hconstant : ", #".toList = ", ".toList ++ "#".toList := rfl
  cases o with
  | move c rd source =>
    refine ⟨move? c, by cases c <;> rfl, ?_⟩
    show move? c (lexemes (rd.text ++ ", " ++ source.text).toList) = _
    simp only [move?, String.toList_append, List.append_assoc, oneRegister_text, operand?_text]
    rfl
  | moveFlags rd rm =>
    refine ⟨_, rfl, ?_⟩
    show oneRegister _ (lexemes (rd.text ++ ", " ++ rm.text).toList) = _
    simp only [String.toList_append, List.append_assoc, oneRegister_text, lastRegister_text]
    rfl
  | moveLow rd half =>
    refine ⟨_, rfl, ?_⟩
    show oneRegister _ (lexemes (rd.text ++ ", #" ++ toString half.toNat).toList) = _
    simp only [String.toList_append, List.append_assoc, hconstant, oneRegister_text,
      lastConstant_text, UInt32.ofNat_toNat]
    rfl
  | moveHigh rd half =>
    refine ⟨_, rfl, ?_⟩
    show oneRegister _ (lexemes (rd.text ++ ", #" ++ toString half.toNat).toList) = _
    simp only [String.toList_append, List.append_assoc, hconstant, oneRegister_text,
      lastConstant_text, UInt32.ofNat_toNat]
    rfl
  | arithmetic op c rd rn source =>
    refine ⟨arithmetic? op c, by cases op <;> cases c <;> rfl, ?_⟩
    show arithmetic? op c (lexemes (rd.text ++ ", " ++ rn.text ++ ", " ++ source.text).toList) = _
    simp only [arithmetic?, String.toList_append, List.append_assoc, oneRegister_text,
      operand?_text]
    rfl
  | multiply rd rn rm =>
    refine ⟨_, rfl, ?_⟩
    show oneRegister _ (lexemes (rd.text ++ ", " ++ rn.text ++ ", " ++ rm.text).toList) = _
    simp only [String.toList_append, List.append_assoc, oneRegister_text, lastRegister_text]
    rfl
  | multiplyLong low high rn rm =>
    refine ⟨_, rfl, ?_⟩
    show oneRegister _ (lexemes
      (low.text ++ ", " ++ high.text ++ ", " ++ rn.text ++ ", " ++ rm.text).toList) = _
    simp only [String.toList_append, List.append_assoc, oneRegister_text, lastRegister_text]
    rfl
  | shiftRight rd rm bits =>
    refine ⟨_, rfl, ?_⟩
    show oneRegister _ (lexemes (rd.text ++ ", " ++ rm.text ++ ", #" ++ toString bits).toList) = _
    simp only [String.toList_append, List.append_assoc, hconstant, oneRegister_text,
      lastConstant_text]
    rfl
  | compare rn source =>
    refine ⟨_, rfl, ?_⟩
    show oneRegister _ (lexemes (rn.text ++ ", " ++ source.text).toList) = _
    simp only [String.toList_append, List.append_assoc, oneRegister_text, operand?_text]
    rfl
  | load rd place =>
    refine ⟨access? .load, rfl, ?_⟩
    show access? .load (lexemes (rd.text ++ ", " ++ place.text).toList) = _
    simp only [access?, String.toList_append, List.append_assoc, oneRegister_text, address?_text]
    rfl
  | store c rs place =>
    refine ⟨access? (.store c), by cases c <;> rfl, ?_⟩
    show access? (.store c) (lexemes (rs.text ++ ", " ++ place.text).toList) = _
    simp only [access?, String.toList_append, List.append_assoc, oneRegister_text, address?_text]
    rfl
  | storeByte c rs place =>
    refine ⟨access? (.storeByte c), by cases c <;> rfl, ?_⟩
    show access? (.storeByte c) (lexemes (rs.text ++ ", " ++ place.text).toList) = _
    simp only [access?, String.toList_append, List.append_assoc, oneRegister_text, address?_text]
    rfl
  | branch c target =>
    exact ⟨lastName (.branch c), by cases c <;> rfl, lastName_text _ (h target rfl)⟩
  | call target => exact ⟨_, rfl, lastName_text _ (h target rfl)⟩
  | push first last more => exact ⟨_, rfl, registerList_text _ first last more⟩
  | pop first last more => exact ⟨_, rfl, registerList_text _ first last more⟩
  | service => exact ⟨_, rfl, rfl⟩

theorem mem_of_lookup {word : String} {f : List Lexeme → Option Operation}
    (h : mnemonics.lookup word = some f) : word ∈ mnemonics.map Prod.fst := by
  obtain ⟨before, after, hmem, -⟩ := List.lookup_eq_some_iff.1 h
  rw [hmem]
  simp

theorem isName_of_lookup {word : String} {f : List Lexeme → Option Operation}
    (h : mnemonics.lookup word = some f) : IsName word.toList := by
  have hall : (mnemonics.map Prod.fst).all (fun word ↦ decide (IsName word.toList)) = true := by rfl
  exact of_decide_eq_true (List.all_eq_true.1 hall word (mem_of_lookup h))

theorem Line.read?_indented (cs : List Char) :
    Line.read? ("    ".toList ++ cs) = statement? (lexemes cs) := by
  show statement? (lexemes ("   ".toList ++ cs)) = statement? (lexemes cs)
  rw [lexemes_gap (by decide)]
  rfl

/-- What starts with a word is not indented, and no remark. -/
theorem Line.read?_label {cs : List Char} (hcs : IsName cs) (rest : List Char) :
    Line.read? (cs ++ rest) = labelLine? (lexemes (cs ++ rest)) := by
  obtain ⟨c, cs, rfl⟩ := List.exists_cons_of_ne_nil hcs.1
  have hword : inWord c = true := (Bool.and_eq_true_iff.1 hcs.2).1
  rw [List.cons_append, Line.read?]
  · intro text heq
    obtain ⟨rfl, -⟩ := List.cons.inj heq
    exact absurd hword (by decide)
  · intro text heq
    obtain ⟨rfl, -⟩ := List.cons.inj heq
    exact absurd hword (by decide)

/-- **A spelled line reads back**, with names for labels. -/
theorem Line.read?_text (line : Line) (h : ∀ l ∈ line.mentioned?, IsName l.text.toList) :
    Line.read? line.text.toList = some line.named := by
  cases line with
  | remark text =>
    show Line.read? ("@ " ++ text).toList = _
    rw [String.toList_append]
    show some (Line.remark (.ofList text.toList)) = _
    rw [String.ofList_toList]
    rfl
  | label l =>
    show Line.read? (l.text ++ ":").toList = _
    rw [String.toList_append, ← List.append_nil ":".toList, Line.read?_label (h l rfl),
      lexemes_word_gap (h l rfl) (by decide)]
    show some (Line.label (.entry (.ofList l.text.toList))) = _
    rw [String.ofList_toList]
    rfl
  | directive d =>
    cases d with
    | visible l =>
      have hglobal : ".global ".toList = ".global".toList ++ " ".toList := rfl
      show Line.read? ("    " ++ (".global " ++ l.text)).toList = _
      rw [String.toList_append, String.toList_append, hglobal, List.append_assoc,
        Line.read?_indented, lexemes_word_gap (by decide) (by decide), lexemes_word (h l rfl)]
      show some (Line.directive (.visible (.entry (.ofList l.text.toList)))) = _
      rw [String.ofList_toList]
      rfl
    | _ => rfl
  | operation o =>
    obtain ⟨f, hlookup, hf⟩ := exists_lookup_mnemonic o h
    show Line.read? ("    " ++ o.mnemonic ++ " " ++ o.operands).toList = _
    rw [String.append_assoc, String.append_assoc, String.toList_append, Line.read?_indented,
      String.toList_append, String.toList_append,
      lexemes_word_gap (isName_of_lookup hlookup) (by decide), statement?, String.ofList_toList,
      hlookup, Option.elim_some]
    show (f (lexemes o.operands.toList)).map Line.operation = _
    rw [hf]
    rfl

/-! ### Texts -/

open Text (Printable printable_nat printable_int printable_of_isIdentifier)

/-- A line that can be read: its label is an identifier, and its remark is printable. -/
def Line.IsSpelled : Line → Prop
  | .remark text => Printable text
  | line => ∀ l ∈ line.mentioned?, Text.isIdentifier l.text = true

theorem printable_register (r : Register) : Printable r.text := by
  cases r <;> exact rfl

theorem printable_operand (o : Operand) : Printable o.text := by
  cases o with
  | immediate n => exact .append rfl (printable_nat _)
  | register r => exact printable_register r
  | shifted r bits => exact .append (.append (printable_register r) rfl) (printable_nat bits)

theorem printable_address (a : Address) : Printable a.text := by
  have hbase (base : Register) : Printable ("[" ++ base.text) :=
    .append rfl (printable_register base)
  cases a with
  | offset base distance =>
    rw [Address.text]
    split
    · exact .append (hbase base) rfl
    · exact .append (.append (.append (hbase base) rfl) (printable_int distance)) rfl
  | below base distance =>
    exact .append (.append (.append (hbase base) rfl) (printable_register distance)) rfl
  | preIndexed base distance =>
    exact .append (.append (.append (hbase base) rfl) (printable_int distance)) rfl
  | postIndexed base distance =>
    exact .append (.append (hbase base) rfl) (printable_int distance)

theorem printable_of_lookup {word : String} {f : List Lexeme → Option Operation}
    (h : mnemonics.lookup word = some f) : Printable word := by
  have hall : (mnemonics.map Prod.fst).all (·.toList.all Text.isPrintable) = true := by rfl
  exact List.all_eq_true.1 hall word (mem_of_lookup h)

theorem printable_operands (o : Operation)
    (h : ∀ l ∈ (Line.operation o).mentioned?, Text.isIdentifier l.text = true) :
    Printable o.operands := by
  have hregister (r : Register) : Printable (r.text ++ ", ") := .append (printable_register r) rfl
  have hlist (first last more : Register) :
      Printable (Operation.registerList first last more) :=
    .append (.append rfl (.append (.append (.append (.append (printable_register first) rfl)
      (printable_register last)) rfl) (printable_register more))) rfl
  cases o with
  | move c rd source => exact .append (hregister rd) (printable_operand source)
  | moveFlags rd rm => exact .append (hregister rd) (printable_register rm)
  | moveLow rd half | moveHigh rd half =>
    exact .append (.append (printable_register rd) rfl) (printable_nat _)
  | arithmetic op c rd rn source =>
    exact .append (.append (.append (hregister rd) (printable_register rn)) rfl)
      (printable_operand source)
  | multiply rd rn rm =>
    exact .append (.append (.append (hregister rd) (printable_register rn)) rfl)
      (printable_register rm)
  | multiplyLong low high rn rm =>
    exact .append (.append (.append (.append (.append (hregister low) (printable_register high))
      rfl) (printable_register rn)) rfl) (printable_register rm)
  | shiftRight rd rm bits =>
    exact .append (.append (.append (hregister rd) (printable_register rm)) rfl)
      (printable_nat bits)
  | compare rn source => exact .append (hregister rn) (printable_operand source)
  | load rd place => exact .append (hregister rd) (printable_address place)
  | store c rs place | storeByte c rs place =>
    exact .append (hregister rs) (printable_address place)
  | branch c target | call target => exact printable_of_isIdentifier (h target rfl)
  | push first last more | pop first last more => exact hlist first last more
  | service => exact rfl

/-- **Spelled lines are printable.** -/
theorem Line.printable_text {line : Line} (h : line.IsSpelled) : Printable line.text := by
  cases line with
  | remark text => exact .append rfl h
  | label l => exact .append (printable_of_isIdentifier (h l rfl)) rfl
  | directive d =>
    cases d with
    | visible l => exact .append rfl (.append rfl (printable_of_isIdentifier (h l rfl)))
    | _ => exact rfl
  | operation o =>
    obtain ⟨f, hlookup, -⟩ := exists_lookup_mnemonic o fun l hl ↦ isName_of_isIdentifier (h l hl)
    exact .append (.append (.append rfl (printable_of_lookup hlookup)) rfl) (printable_operands o h)

theorem Line.read?_text_of_isSpelled {line : Line} (h : line.IsSpelled) :
    Line.read? line.text.toList = some line.named := by
  cases line with
  | remark text => exact Line.read?_text _ (by rintro l ⟨⟩)
  | _ => exact Line.read?_text _ fun l hl ↦ isName_of_isIdentifier (h l hl)

/-- Lines that each have an end are cut at their ends. -/
theorem lines_flatMap {ls : List (List Char)} (h : ∀ l ∈ ls, '\n' ∉ l) :
    Text.lines (ls.flatMap (· ++ ['\n'])) = ls ++ [[]] := by
  induction ls with
  | nil => rfl
  | cons l ls ih =>
    have hl : ∀ c ∈ l, (c == '\n') = false := by
      intro c hc
      rw [beq_eq_false_iff_ne]
      rintro rfl
      exact h l (by simp) hc
    rw [List.flatMap_cons, List.append_assoc, List.singleton_append, Text.lines, List.splitOn,
      List.splitOnP_append_cons_of_forall_mem hl _ (by decide)]
    exact congrArg (l :: ·) (ih fun m hm ↦ h m (by simp [hm]))

theorem toList_text (ls : List Line) :
    (text ls).toList = (ls.map fun l ↦ l.text.toList).flatMap (· ++ ['\n']) := by
  simp [text, List.flatMap_map]

/-- A text of spelled lines is cut into these lines. -/
theorem lines_text {ls : List Line} (h : ∀ line ∈ ls, line.IsSpelled) :
    Text.lines (text ls).toList = (ls.map fun l ↦ l.text.toList) ++ [[]] := by
  rw [toList_text]
  refine lines_flatMap fun l hl ↦ ?_
  obtain ⟨line, hline, rfl⟩ := List.mem_map.1 hl
  exact Text.lineFeed_not_mem_of_printable (Line.printable_text (h line hline))

/-- **A text of spelled lines reads back as the lines**, with names for labels. -/
theorem readAll?_text {ls : List Line} (h : ∀ line ∈ ls, line.IsSpelled) :
    readAll? (text ls) = some (ls.map Line.named) := by
  have hread : (ls.map fun l ↦ l.text.toList).mapM Line.read? = some (ls.map Line.named) := by
    induction ls with
    | nil => rfl
    | cons l ls ih =>
      rw [List.map_cons, List.mapM_cons, Line.read?_text_of_isSpelled (h l (by simp)),
        ih fun m hm ↦ h m (by simp [hm])]
      rfl
  rw [readAll?, lines_text h, List.dropLast_concat, hread]

end CursorMachine.Arm
