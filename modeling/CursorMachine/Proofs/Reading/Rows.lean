import CursorMachine.Proofs.Reading.Display

/-!
# The rows of a text

`Token.rows` cuts a text into lines, the lines into words, leaves out the lines that do not count,
and folds the words of the others into tokens. Here each of the two cuts is said for itself, without
the functions that make it: lines are pieces between line feeds (`Text.AreLines`), and words are
runs of characters that are not blank and that only blanks separate (`Text.AreWords`).

Main statement: there is a row for every line that counts, in the order of the text. It bears the
number of its place, and its contents are the words of the line, all of them and in order
(`Token.exists_rows`). When the rows read as a program, statement `i` comes from row `i`, so the
same number reaches jumps, regions and messages.

That no word is lost is `Token.words_ofWords`, an induction along the scan. What is left to see is
that a keyword's content has its words in it, joined the way the words of the line are.
-/

namespace CursorMachine

/-! ### Lines and words -/

namespace Text

/-- The lines of a text: without a line feed in them, and the text when joined by line feeds. -/
structure AreLines (cs : List Char) (ls : List (List Char)) : Prop where
  intercalate_eq : ['\n'].intercalate ls = cs
  lineFeed_not_mem : ∀ l ∈ ls, '\n' ∉ l

/-- The words of a line. A line is passed over blank by blank; what is not blank is a word as far as
the next blank or the end of the line. -/
inductive AreWords : List Char → List (List Char) → Prop where
  | nil : AreWords [] []
  | blank {c : Char} {cs : List Char} {ws : List (List Char)} (hc : isBlank c = true)
      (h : AreWords cs ws) : AreWords (c :: cs) ws
  | word {w cs : List Char} {ws : List (List Char)} (hne : w ≠ [])
      (hw : ∀ c ∈ w, isBlank c = false) (hend : ∀ c ∈ cs.head?, isBlank c = true)
      (h : AreWords cs ws) : AreWords (w ++ cs) (w :: ws)

theorem areLines_lines (cs : List Char) : AreLines cs (lines cs) where
  intercalate_eq := List.intercalate_splitOn '\n'
  lineFeed_not_mem := by
    unfold lines
    induction cs with
    | nil => simp
    | cons c cs ih =>
      obtain ⟨l, ls, hsplit⟩ := List.exists_cons_of_ne_nil (List.splitOn_ne_nil '\n' cs)
      rw [hsplit] at ih
      obtain ⟨hl, hls⟩ := List.forall_mem_cons.1 ih
      rw [List.splitOn_cons_eq_if_modifyHead, hsplit]
      split
      · exact List.forall_mem_cons.2 ⟨List.not_mem_nil, ih⟩
      next hc =>
        have hne : '\n' ≠ c := fun heq ↦ hc (beq_iff_eq.2 heq.symm)
        exact List.forall_mem_cons.2 ⟨List.not_mem_cons_of_ne_of_not_mem hne hl, hls⟩

theorem words_cons_of_isBlank {c : Char} (hc : isBlank c = true) (cs : List Char) :
    words (c :: cs) = words cs := by
  rw [words, List.splitOnP_cons_eq_if_modifyHead, if_pos hc]
  rfl

theorem words_append {w cs : List Char} (hne : w ≠ []) (hw : ∀ c ∈ w, isBlank c = false)
    (hend : ∀ c ∈ cs.head?, isBlank c = true) : words (w ++ cs) = w :: words cs := by
  have hkept (ls : List (List Char)) :
      (w :: ls).filter (fun l ↦ !l.isEmpty) = w :: ls.filter fun l ↦ !l.isEmpty :=
    List.filter_cons_of_pos (by simpa using hne)
  rcases cs with - | ⟨c, cs⟩
  · rw [List.append_nil, words, List.splitOnP_eq_singleton hw, hkept]
    rfl
  · have hc : isBlank c = true := hend c rfl
    rw [words, List.splitOnP_append_cons_of_forall_mem hw c hc, hkept, words_cons_of_isBlank hc,
      words]

/-- A line that does not start with a blank starts with a word. -/
theorem exists_word_append {c : Char} (hc : isBlank c = false) (cs : List Char) :
    ∃ w rest, c :: cs = w ++ rest ∧ w ≠ [] ∧ (∀ d ∈ w, isBlank d = false) ∧
      ∀ d ∈ rest.head?, isBlank d = true := by
  refine ⟨(c :: cs).takeWhile (!isBlank ·), (c :: cs).dropWhile (!isBlank ·),
    List.takeWhile_append_dropWhile.symm, ?_, fun d hd ↦ ?_, fun d hd ↦ ?_⟩
  · rw [List.takeWhile_cons_of_pos (by simp [hc])]
    exact List.cons_ne_nil _ _
  · simpa using List.all_eq_true.1 List.all_takeWhile d hd
  · have hnot := List.head?_dropWhile_not (!isBlank ·) (c :: cs)
    rw [Option.mem_def.1 hd] at hnot
    simpa using hnot

/-- **`words` finds the words of a line.** -/
theorem areWords_words (cs : List Char) : AreWords cs (words cs) := by
  -- A word takes several characters at once, so the induction is on their number.
  induction hn : cs.length using Nat.strong_induction_on generalizing cs with
  | _ n ih =>
    rcases cs with - | ⟨c, cs⟩
    · exact .nil
    · by_cases hc : isBlank c = true
      · rw [words_cons_of_isBlank hc]
        exact .blank hc (ih cs.length (by rw [← hn, List.length_cons]; omega) cs rfl)
      · obtain ⟨w, rest, hsplit, hne, hw, hend⟩ := exists_word_append (by simpa using hc) cs
        rw [hsplit, List.length_append] at hn
        have hpos := List.length_pos_of_ne_nil hne
        rw [hsplit, words_append hne hw hend]
        exact .word hne hw hend (ih rest.length (by omega) rest rfl)

end Text

/-! ### The contents of a row -/

namespace Token

/-- A token's content is its words, joined by single spaces. -/
theorem content_eq_intercalate {line : Nat} {t : Token} (h : t.MadeOn line) :
    t.content = " ".intercalate t.words := by
  rcases h with ⟨w, rfl⟩ | ⟨k, rfl⟩
  · exact (String.intercalate_singleton).symm
  · rfl

/-- Contents that are joined are the words that are joined. -/
theorem intercalate_map_content {line : Nat} {row : List Token} (h : ∀ t ∈ row, t.MadeOn line) :
    " ".intercalate (row.map Token.content) = " ".intercalate (row.flatMap Token.words) := by
  induction row with
  | nil => rfl
  | cons t row ih =>
    obtain ⟨ht, hrow⟩ := List.forall_mem_cons.1 h
    rw [List.map_cons, List.flatMap_cons, content_eq_intercalate ht]
    rcases row with - | ⟨t', row⟩
    · simp
    · have hne : (t' :: row).flatMap Token.words ≠ [] := by
        simp [words_ne_nil (hrow t' (by simp))]
      rw [String.intercalate_cons_of_ne_nil (by simp), ih hrow,
        String.intercalate_append_of_ne_nil (words_ne_nil ht) hne]

/-- The row that a line of words makes: it has a token, its tokens bear the number of the line, and
their contents are the words, all of them and in order. -/
structure RowOf (line : Nat) (ws : List String) (row : List Token) : Prop where
  ne_nil : row ≠ []
  line_eq : ∀ t ∈ row, t.line = line
  contents_eq : " ".intercalate (row.map Token.content) = " ".intercalate ws

theorem rowOf_ofWords {ws : List String} (line : Nat) (hws : ws ≠ []) :
    RowOf line ws (Token.ofWords line ws) where
  ne_nil := ofWords_ne_nil hws
  line_eq _ := line_of_mem_ofWords
  contents_eq := by rw [intercalate_map_content fun _ ↦ madeOn_of_mem_ofWords, words_ofWords]

end Token

/-! ### Rows and statements -/

/-- The statement of a row has the contents after the first as its parameters. -/
theorem Statement.Reads.params_eq {row : List Token} {s : Statement} (h : Statement.Reads row s) :
    s.params = row.tail.map Token.content := by
  obtain ⟨head, params, rfl, hok⟩ := h
  obtain ⟨k, -, -, -, hparams⟩ := Statement.ofTokens_eq_ok_iff.1 hok
  exact hparams

namespace Token

theorem getElem?_rows {text : String} {i : Nat} {row : List Token}
    (h : (Token.rows text)[i]? = some row) :
    ∃ ws, (logicalLines text)[i]? = some ws ∧ row = Token.ofWords (i + 1) ws := by
  rw [Token.rows, List.getElem?_mapIdx] at h
  obtain ⟨ws, hws, hrow⟩ := Option.map_eq_some_iff.1 h
  exact ⟨ws, hws, hrow.symm⟩

/-- **There is a row for every line that counts**, in the order of the text, and no other. A line
counts when it has a word and its first word does not start with `#` (`isLogical_iff`). Row `i`,
counted from zero, has a token, its tokens bear the number `i + 1`, and its contents are the words
of the line. When the rows read as a program, there is a statement for each of them: statement `i`
stands on line `i + 1` and has the contents of row `i` after the first as its parameters. -/
theorem exists_rows (text : String) :
    ∃ (ls : List (List Char)) (wss : List (List (List Char))),
      Text.AreLines text.toList ls ∧ List.Forall₂ Text.AreWords ls wss ∧
      (Token.rows text).length = (wss.filter isLogical).length ∧
      (∀ i row ws, (Token.rows text)[i]? = some row → (wss.filter isLogical)[i]? = some ws →
        RowOf (i + 1) (ws.map String.ofList) row) ∧
      ∀ p, Program.ofRows (Token.rows text) = .ok p →
        p.length = (Token.rows text).length ∧
        ∀ i row s, (Token.rows text)[i]? = some row → p.statement? i = some s →
          s.line = i + 1 ∧ s.params = row.tail.map Token.content := by
  let ls := Text.lines text.toList
  refine ⟨ls, ls.map Text.words, Text.areLines_lines _, ?_, ?_, fun i row ws hrow hws ↦ ?_,
    fun p hp ↦ ?_⟩
  · exact List.forall₂_map_right_iff.2 (List.forall₂_same.2 fun l _ ↦ Text.areWords_words l)
  · rw [Token.rows, List.length_mapIdx, logicalLines, List.length_map]
  · obtain ⟨ws', hws', rfl⟩ := getElem?_rows hrow
    have hne : ws' ≠ [] := ne_nil_of_mem_logicalLines (List.mem_of_getElem? hws')
    obtain rfl : ws' = ws.map String.ofList := by
      rw [logicalLines, List.getElem?_map, hws] at hws'
      exact (Option.some.inj hws').symm
    exact rowOf_ofWords (i + 1) hne
  · have hreads := (Program.ofText_eq_ok_iff.1 hp).1
    refine ⟨hreads.length_eq.symm, fun i row s hrow hs ↦ ⟨Program.line_eq_of_ofText hp hs, ?_⟩⟩
    obtain ⟨hi, rfl⟩ := List.getElem?_eq_some_iff.1 hrow
    obtain ⟨hi', rfl⟩ := Program.statement?_eq_some_iff.1 hs
    exact ((List.forall₂_iff_get.1 hreads).2 i hi hi').params_eq

/-- Comments, empty lines, blanks of several kinds, and a function named like a keyword: four lines
count, and the second of them is the fifth line of the text. -/
theorem exists_rows_mixed :
    ∃ (p : Program) (ls : List (List Char)) (wss : List (List (List Char))) (ws : List (List Char)),
      Program.ofRows (Token.rows
        "# a\n\n make\u00a0function close\r\n\t\n print\u3000\n#\nclose\nexit\n") = .ok p ∧
      Text.AreLines
        "# a\n\n make\u00a0function close\r\n\t\n print\u3000\n#\nclose\nexit\n".toList ls ∧
      List.Forall₂ Text.AreWords ls wss ∧ (wss.filter isLogical)[1]? = some ws ∧
      RowOf 2 (ws.map String.ofList) [Token.keyword 2 .print] ∧ p.length = 4 ∧
      ∃ s, p.statement? 1 = some s ∧ s.line = 2 ∧ s.params = [] := by
  have hp : Program.ofRows (Token.rows
      "# a\n\n make\u00a0function close\r\n\t\n print\u3000\n#\nclose\nexit\n") =
      .ok ⟨[⟨1, ["close"], .function "close"⟩, ⟨2, [], .print⟩, ⟨3, [], .close⟩, ⟨4, [], .exit⟩],
        [⟨"close", 1, 3⟩]⟩ := by
    rfl
  obtain ⟨ls, wss, hls, hwss, hlength, hrows, hstatements⟩ := exists_rows
    "# a\n\n make\u00a0function close\r\n\t\n print\u3000\n#\nclose\nexit\n"
  obtain ⟨hcount, hreads⟩ := hstatements _ hp
  have hrow : (Token.rows
      "# a\n\n make\u00a0function close\r\n\t\n print\u3000\n#\nclose\nexit\n")[1]? =
      some [Token.keyword 2 .print] := by
    rfl
  have hlt : 1 < (wss.filter isLogical).length := by
    rw [← hlength, ← hcount]
    decide
  exact ⟨_, ls, wss, _, hp, hls, hwss, List.getElem?_eq_getElem hlt,
    hrows 1 _ _ hrow (List.getElem?_eq_getElem hlt), rfl, _, rfl, hreads 1 _ _ hrow rfl⟩

end Token

end CursorMachine
