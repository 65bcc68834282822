import CursorMachine.Proofs.Reading.Printable
import CursorMachine.Proofs.Reading.Regions

/-!
# Programs that are written back

`Program.display` writes a program one statement to a line. Main result: a text so written reads
back as the same program, statement by statement and region by region (`ofText_display`); what was
written in another way before, an amount left out or a number in another radix, is all that changes.

The proof goes up the layers that reading goes down.

* *Words.* A statement's text has the words of its keyword, then its operands. No operand holds a
  blank, and no first word starts a comment (`words_text`, `logicalLines_display`).
* *Tokens.* The keyword's words fold into one token as soon as the last of them is read, and what
  follows is scanned afresh (`ofWords_keyword`). What follows may spell a keyword of one word, which
  is a token with that word as its content; it cannot spell a longer one, since only numbers come in
  pairs (`map_content_ofWords_operands`).
* *Statements.* Operands in range read back (`Instruction.decode_operands`).
* *Regions.* They depend on lines and instructions only (`Region.collect_congr`).
-/

namespace CursorMachine

/-! ### Words of a text -/

namespace Text

/-- The visible part of ASCII holds no blank. -/
theorem isBlank_eq_false_of_visible {c : Char} (h : 33 ≤ c.toNat ∧ c.toNat ≤ 126) :
    isBlank c = false := by
  simp only [isBlank, blankRanges, List.any_cons, List.any_nil, Bool.or_eq_false_iff,
    Bool.and_eq_false_iff, decide_eq_false_iff_not, and_true]
  omega

theorem isBlank_of_isIdentifierTail {c : Char} (h : isIdentifierTail c = true) :
    isBlank c = false := by
  have := toNat_of_isIdentifierTail h
  exact isBlank_eq_false_of_visible (by omega)

/-- A word: not empty, and without a blank. -/
def IsWord (w : String) : Prop := w.toList ≠ [] ∧ ∀ c ∈ w.toList, isBlank c = false

instance (w : String) : Decidable (IsWord w) :=
  -- The letters of the word are to be gone through, not all characters there are.
  haveI : Decidable (∀ c ∈ w.toList, isBlank c = false) := List.decidableBAll _ w.toList
  instDecidableAnd

/-- Pieces without a separator, joined by one, are cut where they were joined. -/
theorem splitOnP_intercalate {p : Char → Bool} {sep : Char} (hsep : p sep = true)
    {ls : List (List Char)} (hne : ls ≠ []) (h : ∀ l ∈ ls, ∀ c ∈ l, p c = false) :
    ([sep].intercalate ls).splitOnP p = ls := by
  induction ls with
  | nil => exact absurd rfl hne
  | cons l ls ih =>
    rcases ls with - | ⟨l', ls⟩
    · rw [List.intercalate_singleton]
      exact List.splitOnP_eq_singleton (h l (by simp))
    · rw [List.intercalate_cons_cons, List.append_assoc, List.singleton_append,
        List.splitOnP_append_cons_of_forall_mem (h l (by simp)) sep hsep,
        ih (by simp) (fun m hm ↦ h m (by simp [hm]))]

/-- The words of words joined by single spaces. -/
theorem words_intercalate {ws : List String} (hne : ws ≠ []) (h : ∀ w ∈ ws, IsWord w) :
    words (" ".intercalate ws).toList = ws.map String.toList := by
  have hpieces : ∀ l ∈ ws.map String.toList, ∀ c ∈ l, isBlank c = false := by
    intro l hl
    obtain ⟨w, hw, rfl⟩ := List.mem_map.1 hl
    exact (h w hw).2
  have hfilter : ∀ l ∈ ws.map String.toList, (!l.isEmpty) = true := by
    intro l hl
    obtain ⟨w, hw, rfl⟩ := List.mem_map.1 hl
    simpa using (h w hw).1
  rw [words, String.toList_intercalate,
    show " ".toList = [' '] from rfl,
    splitOnP_intercalate (by decide) (by simpa using hne) hpieces, List.filter_eq_self.2 hfilter]

theorem isWord_toString_nat (n : Nat) : IsWord (toString n) := by
  refine ⟨?_, fun _ hc ↦ isBlank_of_isIdentifierTail (isIdentifierTail_of_mem_nat hc)⟩
  simp [Nat.toDigits_ne_nil]

theorem isWord_toString_int (n : Int) : IsWord (toString n) := by
  refine ⟨?_, fun c hc ↦ ?_⟩
  · rw [Int.toString_eq_repr, Int.repr_eq_if]
    split <;> simp [Nat.toDigits_ne_nil]
  · rcases isIdentifierTail_of_mem_int hc with rfl | htail
    · decide
    · exact isBlank_of_isIdentifierTail htail

theorem isWord_of_isIdentifier {name : String} (h : isIdentifier name = true) : IsWord name :=
  ⟨ne_nil_of_isIdentifier h, fun _ hc ↦
    isBlank_of_isIdentifierTail (isIdentifierTail_of_mem h hc)⟩

end Text

namespace Keyword

theorem words_ne_nil (k : Keyword) : k.words ≠ [] := by
  have hall : ∀ k ∈ all, k.words ≠ [] := by decide
  exact hall k (mem_all k)

theorem isWord_of_mem_words {k : Keyword} {w : String} (h : w ∈ k.words) : Text.IsWord w := by
  have hall : ∀ k ∈ all, ∀ w ∈ k.words, Text.IsWord w := by decide
  exact hall k (mem_all k) w h

/-- No keyword starts a comment. -/
theorem head?_words_ne (k : Keyword) :
    (k.words.map String.toList).head?.bind List.head? ≠ some commentMark := by
  have hall : ∀ k ∈ all, (k.words.map String.toList).head?.bind List.head? ≠ some commentMark := by
    decide
  exact hall k (mem_all k)

end Keyword

namespace Instruction

/-- The words that an instruction is written with. -/
def words (i : Instruction) : List String := i.keyword.words ++ i.operands

theorem isWord_of_mem_operands {i : Instruction} (h : i.InRange) {w : String}
    (hw : w ∈ i.operands) : Text.IsWord w :=
  forall_mem_operands Text.isWord_toString_nat Text.isWord_toString_int
    (fun _ ↦ Text.isWord_of_isIdentifier) h w hw

theorem isWord_of_mem_words {i : Instruction} (h : i.InRange) {w : String} (hw : w ∈ i.words) :
    Text.IsWord w := by
  rcases List.mem_append.1 hw with hk | ho
  · exact Keyword.isWord_of_mem_words hk
  · exact isWord_of_mem_operands h ho

/-- An instruction is written word by word. -/
theorem text_eq_intercalate_words (i : Instruction) : i.text = " ".intercalate i.words := by
  rw [text, words, Keyword.phrase]
  rcases hop : i.operands with - | ⟨o, os⟩
  · rw [List.append_nil, String.intercalate_singleton]
  · rw [String.intercalate_cons_cons,
      String.intercalate_append_of_ne_nil (Keyword.words_ne_nil _) (by simp)]

/-- **The words of a written instruction** are those of its keyword, then its operands. -/
theorem words_text {i : Instruction} (h : i.InRange) :
    Text.words i.text.toList = i.words.map String.toList := by
  rw [text_eq_intercalate_words]
  refine Text.words_intercalate ?_ fun w hw ↦ isWord_of_mem_words h hw
  simp [words, Keyword.words_ne_nil]

/-- A written instruction stays on its line. -/
theorem lineFeed_not_mem_text {i : Instruction} (h : i.InRange) : '\n' ∉ i.text.toList :=
  Text.lineFeed_not_mem_of_printable (printable_text h)

end Instruction

/-! ### Lines of a written program -/

/-- A program as text, one statement to a line. -/
def Program.display (p : Program) : String :=
  "\n".intercalate (p.statements.map Statement.text)

/-- **The logical lines of a written program** are its statements, word by word. -/
theorem logicalLines_display {p : Program} (hp : p.WellFormed) (hne : p.statements ≠ []) :
    logicalLines p.display = p.statements.map fun s ↦ s.instruction.words := by
  have hlines : Text.lines p.display.toList = p.statements.map fun s ↦ s.text.toList := by
    rw [Program.display, String.toList_intercalate, List.map_map]
    refine List.splitOn_intercalate '\n' ?_ (by simpa using hne)
    intro l hl
    obtain ⟨s, hs, rfl⟩ := List.mem_map.1 hl
    exact Instruction.lineFeed_not_mem_text (hp.inRange hs)
  have hwords : (Text.lines p.display.toList).map Text.words =
      p.statements.map fun s ↦ s.instruction.words.map String.toList := by
    rw [hlines, List.map_map]
    refine List.map_congr_left fun s hs ↦ ?_
    exact Instruction.words_text (hp.inRange hs)
  have hlogical : ∀ ws ∈ (Text.lines p.display.toList).map Text.words, isLogical ws = true := by
    intro ws hws
    rw [hwords] at hws
    obtain ⟨s, -, rfl⟩ := List.mem_map.1 hws
    have hhead := Keyword.head?_words_ne s.instruction.keyword
    obtain ⟨w, rest, hk⟩ := List.exists_cons_of_ne_nil (Keyword.words_ne_nil s.instruction.keyword)
    rw [hk] at hhead
    rw [Instruction.words, hk]
    exact isLogical_iff.2 ⟨_, _, rfl, by simpa [commentMark] using hhead⟩
  rw [logicalLines, List.filter_eq_self.2 hlogical, hwords, List.map_map]
  refine List.map_congr_left fun s _ ↦ ?_
  simp [Function.comp_def]

/-! ### Tokens of a written program -/

namespace Scan

/-- A scan that goes on after other tokens. -/
def after (settled : List Token) (s : Scan) : Scan :=
  { s with settled := s.settled ++ settled }

/-- Reading a word does not look at the tokens that are settled. -/
theorem push_after (line : Nat) (settled : List Token) (s : Scan) (word : String) :
    (s.after settled).push line word = (s.push line word).after settled := by
  unfold push
  split
  · simp [settleKeyword, settle, after]
  · dsimp only [after]
    split <;> simp [settleKeyword, settle]

theorem tokens_foldl_push_after (line : Nat) (settled : List Token) (s : Scan)
    (ws : List String) :
    (ws.foldl (Scan.push line) (s.after settled)).tokens line =
      settled.reverse ++ (ws.foldl (Scan.push line) s).tokens line := by
  induction ws generalizing s with
  | nil => simp [tokens, settle, after]
  | cons w ws ih => rw [List.foldl_cons, push_after, ih, List.foldl_cons]

/-- A keyword is settled with its last word. -/
theorem foldl_push_words (line : Nat) (k : Keyword) :
    k.words.foldl (Scan.push line) Scan.start = ⟨[Token.keyword line k], []⟩ := by
  rcases k with (_ | _) | _ | _ | (_ | _) | _ | _ | _ | _ | _ | _ | (_ | _ | _ | _) | _ |
    (_ | _ | _) <;> rfl

end Scan

namespace Token

/-- **What follows a keyword is scanned afresh.** -/
theorem ofWords_keyword (line : Nat) (k : Keyword) (ws : List String) :
    Token.ofWords line (k.words ++ ws) = Token.keyword line k :: Token.ofWords line ws := by
  rw [Token.ofWords, List.foldl_append, Scan.foldl_push_words,
    show (⟨[Token.keyword line k], []⟩ : Scan) = Scan.start.after [Token.keyword line k] from rfl,
    Scan.tokens_foldl_push_after]
  rfl

/-- A token of one word has that word as its content. -/
theorem content_of_words_eq {line : Nat} {t : Token} (ht : t.MadeOn line) {w : String}
    (h : t.words = [w]) : t.content = w := by
  rcases ht with ⟨v, rfl⟩ | ⟨k, rfl⟩
  · exact List.singleton_inj.1 h
  · have hk : k.words = [w] := h
    show k.phrase = w
    rw [Keyword.phrase, hk, String.intercalate_singleton]

theorem words_ne_nil {line : Nat} {t : Token} (ht : t.MadeOn line) : t.words ≠ [] := by
  rcases ht with ⟨v, rfl⟩ | ⟨k, rfl⟩
  · exact List.cons_ne_nil _ _
  · exact k.words_ne_nil

/-- A single word is a token with that word as its content. -/
theorem map_content_ofWords_singleton (line : Nat) (w : String) :
    (Token.ofWords line [w]).map Token.content = [w] := by
  -- Tokens keep the words and none is without one, so there is exactly one token.
  have hmade : ∀ t ∈ Token.ofWords line [w], t.MadeOn line := fun _ ↦ madeOn_of_mem_ofWords
  have hwords := words_ofWords line [w]
  rcases hts : Token.ofWords line [w] with - | ⟨t, ts⟩
  · simp [hts] at hwords
  · rw [hts] at hwords hmade
    rw [List.flatMap_cons] at hwords
    have hne := words_ne_nil (hmade t (by simp))
    rcases List.append_eq_singleton_iff.1 hwords with ⟨hnil, -⟩ | ⟨hone, hrest⟩
    · exact absurd hnil hne
    · obtain rfl : ts = [] := by
        rcases ts with - | ⟨t', ts⟩
        · rfl
        · rw [List.flatMap_cons, List.append_eq_nil_iff] at hrest
          exact absurd hrest.1 (words_ne_nil (hmade t' (by simp)))
      rw [List.map_singleton, content_of_words_eq (hmade t (by simp)) hone]

end Token

/-- No number is a word of a keyword: no keyword starts with a digit. -/
theorem Keyword.toString_nat_not_mem_words (k : Keyword) (n : Nat) : toString n ∉ k.words := by
  have hall : ∀ k ∈ all, ∀ w ∈ k.words, w.toList.head?.any Char.isDigit = false := by decide
  intro hmem
  obtain ⟨c, cs, hdigits⟩ := List.exists_cons_of_ne_nil (Nat.toDigits_ne_nil (n := n) (b := 10))
  have hhead : (toString n).toList.head? = some c := by
    rw [Nat.toString_eq_repr, Nat.toList_repr, hdigits, List.head?_cons]
  have hdigit : c.isDigit = true :=
    Text.Numeral.isDigit_of_mem_toDigits (n := n) (by simp [hdigits])
  have hnone := hall k (mem_all k) _ hmem
  rw [hhead, Option.any_some, hdigit] at hnone
  cases hnone

/-- A word that neither is a keyword nor begins a phrase is settled at once, unless a phrase is
under way. -/
theorem Scan.push_of_none {w : String} (hnone : Keyword.ofWords? [w] = none)
    (hstart : Keyword.isPhraseStart [w] = false) (line : Nat) (settled : List Token) :
    (⟨settled, []⟩ : Scan).push line w = ⟨Token.literal line w :: settled, []⟩ := by
  have hempty : Keyword.ofWords? [] = none := by decide
  simp [push, hnone, release, hstart, hempty, settle]

/-- So is a word of no keyword. -/
theorem Scan.push_of_not_mem {w : String} (h : ∀ k : Keyword, w ∉ k.words) (line : Nat)
    (settled : List Token) :
    (⟨settled, []⟩ : Scan).push line w = ⟨Token.literal line w :: settled, []⟩ := by
  refine push_of_none (Keyword.ofWords?_eq_none_iff.2 fun k hk ↦ h k (by simp [hk])) ?_ line settled
  rw [Bool.eq_false_iff]
  intro hstart
  obtain ⟨k, -, hk⟩ := Keyword.isPhraseStart_iff.1 hstart
  exact h k (hk.subset (by simp))

/-- **The operands that follow a keyword are the contents of its parameter tokens.** -/
theorem Instruction.map_content_ofWords_operands (line : Nat) (i : Instruction) :
    (Token.ofWords line i.operands).map Token.content = i.operands := by
  cases i with
  | moveBy | moveTo | copyTo | jumpBy | jumpTo | function | call | set | update =>
    exact Token.map_content_ofWords_singleton line _
  | compare r a b =>
    -- Two words could make a phrase, but numbers are words of no keyword.
    have ha := fun k ↦ Keyword.toString_nat_not_mem_words k a
    have hb := fun k ↦ Keyword.toString_nat_not_mem_words k b
    simp only [operands, Token.ofWords, List.foldl_cons, List.foldl_nil, Scan.start,
      Scan.push_of_not_mem ha, Scan.push_of_not_mem hb]
    rfl
  | print | close | exit => rfl

/-! ### Statements and regions of a written program -/

/-- The statement that a written statement reads back as. -/
def Statement.displayed (s : Statement) : Statement :=
  { s with params := s.instruction.operands }

/-- **A written statement reads back.** -/
theorem Statement.reads_displayed {s : Statement} (h : s.instruction.InRange) :
    Statement.Reads (Token.ofWords s.line s.instruction.words) s.displayed := by
  rw [Instruction.words, Token.ofWords_keyword]
  refine ⟨_, _, rfl, Statement.ofTokens_eq_ok_iff.2 ⟨s.instruction.keyword, rfl, ?_, rfl, ?_⟩⟩
  · rw [Instruction.map_content_ofWords_operands]
    exact Instruction.decode_operands _ h
  · rw [Instruction.map_content_ofWords_operands]
    rfl

namespace Region

theorem collect_map_displayed (taken : List String) (ss : List Statement) :
    collect taken (ss.map Statement.displayed) = collect taken ss := by
  refine collect_congr (List.forall₂_map_right_iff.2 ?_) taken
  exact List.forall₂_same.2 fun s _ ↦ ⟨rfl, rfl, Iff.rfl⟩

end Region

/-! ### The round trip -/

namespace Program

variable {p : Program}

/-- The rows of a written program are read as its statements. -/
theorem forall₂_reads_display (hp : p.WellFormed) (hne : p.statements ≠ []) :
    List.Forall₂ Statement.Reads (Token.rows p.display)
      (p.statements.map Statement.displayed) := by
  have hrows : Token.rows p.display =
      p.statements.mapIdx fun i s ↦ Token.ofWords (i + 1) s.instruction.words := by
    rw [Token.rows, logicalLines_display hp hne]
    exact List.ext_getElem (by simp) fun i _ _ ↦ by simp
  rw [hrows, List.forall₂_iff_get]
  refine ⟨by simp, fun i hi hi' ↦ ?_⟩
  have hlt : i < p.statements.length := by simpa using hi
  have hs : p.statement? i = some p.statements[i] := List.getElem?_eq_getElem hlt
  have hread := Statement.reads_displayed (hp.inRange (mem_of_statement? hs))
  rw [hp.line_eq hs] at hread
  simpa using hread

/-- **Written programs read back.** Whatever text a program was read from, the program written one
statement to a line reads as a program of the same length, with the same line and the same
instruction at every place and the same regions, and it is written the same way again. -/
theorem ofText_display {text : String} (h : ofText text = .ok p) :
    ∃ q, ofText p.display = .ok q ∧ q.length = p.length ∧
      q.statements.map (fun s ↦ (s.line, s.instruction)) =
        p.statements.map (fun s ↦ (s.line, s.instruction)) ∧
      q.regions = p.regions ∧
      q.statements.map Statement.text = p.statements.map Statement.text := by
  have hp := wellFormed_of_ofText h
  obtain ⟨-, -, hexit⟩ := ofText_eq_ok_iff.1 h
  have hne : p.statements ≠ [] := by
    rintro hnil
    simp [hnil] at hexit
  refine ⟨⟨p.statements.map Statement.displayed, p.regions⟩, ?_, ?_, ?_, rfl, ?_⟩
  · refine ofText_eq_ok_iff.2 ⟨forall₂_reads_display hp hne, ?_, ?_⟩
    · exact (Region.collect_map_displayed _ _).trans hp.collected
    · rw [List.any_map]
      exact hexit
  · rw [length, List.length_map, length]
  · rw [List.map_map]
    rfl
  · rw [List.map_map]
    rfl

/-- A function named like a keyword, a hexadecimal value, a comment and an amount left out. -/
theorem ofText_display_mixed :
    ∃ p, ofText "make function print\n set  value to -0x10\nclose\n# x\nplus memory pointer\nexit" =
        .ok p ∧
      p.display = "make function print\nset value to -16\nclose\nplus memory pointer 1\nexit" ∧
      ∃ q, ofText p.display = .ok q ∧ q.length = p.length ∧
        q.statements.map (fun s ↦ (s.line, s.instruction)) =
          p.statements.map (fun s ↦ (s.line, s.instruction)) ∧
        q.regions = p.regions ∧
        q.statements.map Statement.text = p.statements.map Statement.text := by
  have h : ofText
      "make function print\n set  value to -0x10\nclose\n# x\nplus memory pointer\nexit" =
      .ok ⟨[⟨1, ["print"], .function "print"⟩, ⟨2, ["-0x10"], .set (-16)⟩, ⟨3, [], .close⟩,
        ⟨4, [], .moveBy .forward 1⟩, ⟨5, [], .exit⟩], [⟨"print", 1, 3⟩]⟩ := by
    rfl
  exact ⟨_, h, by decide +kernel, ofText_display h⟩

end Program

end CursorMachine
