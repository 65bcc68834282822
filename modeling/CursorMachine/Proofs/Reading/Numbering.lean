import CursorMachine.Program
import CursorMachine.Proofs.Reading.Operands
import Mathlib.Data.List.Forall2

/-!
# Statements and their lines

Reading a text gives one statement for each logical line, in order, and the statement at place `i`
stands on line `i + 1` (`line_eq_of_ofText`). Two facts about rows carry this: the tokens of a line
all bear its number, and a line with a word has a token, so no row is skipped.

`Statement.Reads row s` relates a row to its statement, and `readStatements_eq_ok_iff` turns the
recursion over rows into a pointwise relation.

A text has at least two characters for each logical line but one, the word and the line feed, which
bounds the number of statements by the size of the text (`two_mul_length_le`).
-/

namespace CursorMachine

/-! ### Tokens of a line -/

/-- A token that the scan of a line makes, of a word or of a keyword. -/
def Token.MadeOn (line : Nat) (t : Token) : Prop :=
  (∃ w, t = Token.literal line w) ∨ ∃ k, t = Token.keyword line k

namespace Scan

variable {line : Nat} {s : Scan}

/-- All tokens read so far are made on the line. -/
def OnLine (line : Nat) (s : Scan) : Prop := ∀ t ∈ s.settled, t.MadeOn line

theorem OnLine.settle (h : s.OnLine line) (ws : List String) : (s.settle line ws).OnLine line := by
  intro t ht
  rcases List.mem_append.1 ht with hnew | hold
  · obtain ⟨w, -, rfl⟩ := List.mem_map.1 (List.mem_reverse.1 hnew)
    exact .inl ⟨w, rfl⟩
  · exact h t hold

theorem OnLine.settleKeyword (h : s.OnLine line) (k : Keyword) :
    (s.settleKeyword line k).OnLine line := by
  intro t ht
  rcases List.mem_cons.1 ht with rfl | hold
  · exact .inr ⟨k, rfl⟩
  · exact h t hold

theorem OnLine.push (h : s.OnLine line) (word : String) : (s.push line word).OnLine line := by
  unfold Scan.push
  split
  · exact (h.settle _).settleKeyword _
  · dsimp only
    split
    · exact (h.settle _).settleKeyword _
    · exact h.settle (release (s.run ++ [word])).1

theorem onLine_foldl_push {ws : List String} (h : s.OnLine line) :
    (ws.foldl (Scan.push line) s).OnLine line := by
  induction ws generalizing s with
  | nil => exact h
  | cons w ws ih => exact ih (h.push w)

/-- A scan has read the words it started with and those it was given, in order. -/
theorem words_foldl_push (ws : List String) :
    (ws.foldl (Scan.push line) s).words = s.words ++ ws := by
  induction ws generalizing s with
  | nil => simp
  | cons w ws ih => rw [List.foldl_cons, ih, words_push, List.append_assoc, List.singleton_append]

end Scan

namespace Token

/-- Every token of a line is one that its scan makes. -/
theorem madeOn_of_mem_ofWords {line : Nat} {ws : List String} {t : Token}
    (h : t ∈ Token.ofWords line ws) : t.MadeOn line := by
  have hstart : Scan.start.OnLine line := fun t ht ↦ absurd ht List.not_mem_nil
  exact (Scan.onLine_foldl_push hstart).settle _ t (List.mem_reverse.1 h)

/-- **Every token of a line bears its number.** -/
theorem line_of_mem_ofWords {line : Nat} {ws : List String} {t : Token}
    (h : t ∈ Token.ofWords line ws) : t.line = line := by
  rcases madeOn_of_mem_ofWords h with ⟨w, rfl⟩ | ⟨k, rfl⟩
  · rfl
  · rfl

/-- **The tokens of a line are its words**, in order and without loss. -/
theorem words_ofWords (line : Nat) (ws : List String) :
    (Token.ofWords line ws).flatMap Token.words = ws := by
  have hread : (ws.foldl (Scan.push line) Scan.start).words = ws := by
    rw [Scan.words_foldl_push]
    rfl
  rw [Token.ofWords, Scan.tokens, Scan.words_settle]
  exact hread

theorem ofWords_ne_nil {line : Nat} {ws : List String} (h : ws ≠ []) :
    Token.ofWords line ws ≠ [] := by
  intro hnil
  have hwords := words_ofWords line ws
  rw [hnil] at hwords
  exact h hwords.symm

/-- A logical line has a word. -/
theorem ne_nil_of_mem_logicalLines {text : String} {ws : List String}
    (h : ws ∈ logicalLines text) : ws ≠ [] := by
  obtain ⟨line, hline, rfl⟩ := List.mem_map.1 h
  obtain ⟨first, rest, rfl, -⟩ := isLogical_iff.1 (List.mem_filter.1 hline).2
  exact List.cons_ne_nil _ _

theorem ne_nil_of_mem_rows {text : String} {row : List Token} (h : row ∈ Token.rows text) :
    row ≠ [] := by
  obtain ⟨i, hi, rfl⟩ := List.mem_mapIdx.1 h
  exact ofWords_ne_nil (ne_nil_of_mem_logicalLines (List.getElem_mem hi))

end Token

/-! ### Rows and statements -/

/-- A row is read as a statement. -/
def Statement.Reads (row : List Token) (s : Statement) : Prop :=
  ∃ head params, row = head :: params ∧ Statement.ofTokens head params = .ok s

theorem Statement.ofTokens_eq_ok_iff {head : Token} {params : List Token} {s : Statement} :
    Statement.ofTokens head params = .ok s ↔
      ∃ k, head.kind = .keyword k ∧
        Instruction.decode k head.line (params.map Token.content) = .ok s.instruction ∧
        s.line = head.line ∧ s.params = params.map Token.content := by
  unfold Statement.ofTokens
  split
  next hk =>
    cases hkind : head.kind <;> simp_all [Kind.keyword?]
  next k hk =>
    have hkind : head.kind = .keyword k := by
      cases hkind : head.kind <;> simp_all [Kind.keyword?]
    rw [bind_eq_ok_iff]
    constructor
    · rintro ⟨i, hi, hs⟩
      cases hs
      exact ⟨k, hkind, hi, rfl, rfl⟩
    · rintro ⟨k', hk', hi, hline, hparams⟩
      obtain rfl : k = k' := by simpa [hkind] using hk'
      refine ⟨s.instruction, hi, ?_⟩
      rw [← hline, ← hparams]
      rfl

namespace Program

/-- Rows that are not empty are read one by one. -/
theorem readStatements_eq_ok_iff {rows : List (List Token)} {ss : List Statement}
    (h : ∀ row ∈ rows, row ≠ []) :
    readStatements rows = .ok ss ↔ List.Forall₂ Statement.Reads rows ss := by
  induction rows generalizing ss with
  | nil =>
    rw [readStatements, List.forall₂_nil_left_iff, Except.ok.injEq]
    exact eq_comm
  | cons row rows ih =>
    obtain ⟨head, params, rfl⟩ := List.exists_cons_of_ne_nil (h row (by simp))
    have hrest : ∀ row ∈ rows, row ≠ [] := fun row hrow ↦ h row (by simp [hrow])
    rw [readStatements, bind_eq_ok_iff, List.forall₂_cons_left_iff]
    constructor
    · rintro ⟨s, hs, hss⟩
      obtain ⟨tail, htail, hss⟩ := bind_eq_ok_iff.1 hss
      cases hss
      exact ⟨s, tail, ⟨head, params, rfl, hs⟩, (ih hrest).1 htail, rfl⟩
    · rintro ⟨s, tail, ⟨head', params', hrow, hs⟩, htail, rfl⟩
      cases hrow
      exact ⟨s, hs, bind_eq_ok_iff.2 ⟨tail, (ih hrest).2 htail, rfl⟩⟩

variable {text : String} {p : Program}

/-- What it takes to read a program from a text: a statement for every row, a region for every
opening line, and some `exit`. -/
theorem ofText_eq_ok_iff :
    ofText text = .ok p ↔
      List.Forall₂ Statement.Reads (Token.rows text) p.statements ∧
        Region.collect [] p.statements = .ok p.regions ∧
        p.statements.any (·.instruction == .exit) = true := by
  rw [ofText, ofRows, bind_eq_ok_iff]
  constructor
  · rintro ⟨ss, hss, hp⟩
    obtain ⟨rs, hrs, hp⟩ := bind_eq_ok_iff.1 hp
    split at hp
    next hexit =>
      cases hp
      exact ⟨(readStatements_eq_ok_iff fun _ ↦ Token.ne_nil_of_mem_rows).1 hss, hrs, hexit⟩
    next => cases hp
  · rintro ⟨hss, hrs, hexit⟩
    refine ⟨p.statements, (readStatements_eq_ok_iff fun _ ↦ Token.ne_nil_of_mem_rows).2 hss, ?_⟩
    refine bind_eq_ok_iff.2 ⟨p.regions, hrs, ?_⟩
    rw [if_pos hexit]

/-- A program has a statement for every logical line of its text. -/
theorem length_eq_of_ofText (h : ofText text = .ok p) : p.length = (logicalLines text).length := by
  have hlen := (ofText_eq_ok_iff.1 h).1.length_eq
  rw [Token.rows, List.length_mapIdx] at hlen
  exact hlen.symm

/-- Statements that are read from the rows of a text stand on the lines after their places. -/
theorem line_eq_of_reads {ss : List Statement}
    (h : List.Forall₂ Statement.Reads (Token.rows text) ss) {i : Nat} {s : Statement}
    (hs : ss[i]? = some s) : s.line = i + 1 := by
  obtain ⟨hi, rfl⟩ := List.getElem?_eq_some_iff.1 hs
  have hi' : i < (Token.rows text).length := h.length_eq ▸ hi
  obtain ⟨head, params, hrow, hok⟩ := List.forall₂_iff_get.1 h |>.2 i hi' hi
  obtain ⟨k, -, -, hline, -⟩ := Statement.ofTokens_eq_ok_iff.1 hok
  rw [List.get_eq_getElem] at hrow hline
  rw [hline]
  have hlines : i < (logicalLines text).length := by simpa [Token.rows] using hi'
  have hhead : head ∈ Token.ofWords (i + 1) (logicalLines text)[i] := by
    have hmem : head ∈ (Token.rows text)[i] := by simp [hrow]
    simpa [Token.rows] using hmem
  exact Token.line_of_mem_ofWords hhead

/-- **Lines are places, counted from one.** -/
theorem line_eq_of_ofText (h : ofText text = .ok p) {i : Nat} {s : Statement}
    (hs : p.statement? i = some s) : s.line = i + 1 :=
  line_eq_of_reads (ofText_eq_ok_iff.1 h).1 hs

/-- **Every operand is in range.** -/
theorem inRange_of_ofText (h : ofText text = .ok p) {s : Statement} (hs : s ∈ p.statements) :
    s.instruction.InRange := by
  obtain ⟨i, hi, rfl⟩ := List.getElem_of_mem hs
  have hread := (ofText_eq_ok_iff.1 h).1
  obtain ⟨head, params, -, hok⟩ :=
    List.forall₂_iff_get.1 hread |>.2 i (hread.length_eq ▸ hi) hi
  obtain ⟨k, -, hdecode, -, -⟩ := Statement.ofTokens_eq_ok_iff.1 hok
  exact (Instruction.inRange_of_decode hdecode).1

end Program

/-! ### The size of a text -/

/-- The pieces of a text, with a line feed after each, are one character more than the text. -/
theorem sum_length_lines (cs : List Char) :
    ((Text.lines cs).map fun l ↦ l.length + 1).sum = cs.length + 1 := by
  unfold Text.lines
  induction cs with
  | nil => rfl
  | cons c cs ih =>
    obtain ⟨l, ls, hsplit⟩ := List.exists_cons_of_ne_nil (List.splitOn_ne_nil '\n' cs)
    rw [hsplit, List.map_cons, List.sum_cons] at ih
    rw [List.splitOn_cons_eq_if_modifyHead, hsplit]
    split
    · rw [List.map_cons, List.map_cons, List.sum_cons, List.sum_cons, List.length_cons,
        List.length_nil]
      omega
    · rw [List.modifyHead_cons, List.map_cons, List.sum_cons, List.length_cons, List.length_cons]
      omega

/-- A line with a word is not empty. -/
theorem length_pos_of_isLogical {l : List Char} (h : isLogical (Text.words l) = true) :
    1 ≤ l.length := by
  cases l with
  | nil => exact absurd h (by decide)
  | cons c cs => simp

/-- **A text has two characters for every logical line but one.** -/
theorem two_mul_length_le (text : String) :
    2 * (logicalLines text).length ≤ text.length + 1 := by
  -- A logical line has a character, and each piece of the text counts its line feed.
  have hcount : ∀ ls : List (List Char),
      2 * ((ls.map Text.words).filter isLogical).length ≤ (ls.map fun l ↦ l.length + 1).sum := by
    intro ls
    induction ls with
    | nil => simp
    | cons l ls ih =>
      rw [List.map_cons, List.map_cons, List.sum_cons, List.filter_cons]
      split
      next h =>
        have := length_pos_of_isLogical h
        rw [List.length_cons]
        omega
      next => omega
  have h := hcount (Text.lines text.toList)
  rw [sum_length_lines, String.length_toList] at h
  rwa [logicalLines, List.length_map]

/-- A text shorter than `2 ^ 63` characters has fewer than `2 ^ 62 + 1` statements, so no line or
place of its program comes near `farthest`. -/
theorem Program.length_le_of_ofText {text : String} {p : Program} (h : Program.ofText text = .ok p)
    (htext : text.length < 2 ^ 63) : p.length ≤ 2 ^ 62 := by
  have := two_mul_length_le text
  rw [Program.length_eq_of_ofText h]
  omega

end CursorMachine
