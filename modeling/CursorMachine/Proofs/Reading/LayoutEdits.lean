import Mathlib.Data.List.Induction
import Mathlib.Logic.Relation
import CursorMachine.Proofs.Reading.Rows

/-!
# Edits of the layout

The rows of a text do not show how it is laid out. `LayoutEdit` lists the edits that change nothing
but the layout: lines that do not count, the white space in a line, the ends of lines and of the
text. Main statement: such edits lead from one text to another exactly when the two have the same
rows (`Token.rows_eq_iff_layoutEdits`).

* *No edit shows.* Whatever stands around it, a piece without a line feed touches one line, the same
  for any such piece (`exists_countedLines_append`), and a gap between two pieces of a line
  separates their words whatever it is made of (`words_append_gap`).
* *Nothing else is lost.* Edits lead from every text to its normal form: its words, each after one
  space, line by line (`eqvGen_layOut`). The words can be read off the rows, so texts with the
  same rows have one normal form.
-/

namespace CursorMachine

namespace Text

/-! ### The edits -/

/-- White space within a line, at least one character of it. -/
structure IsGap (x : List Char) : Prop where
  ne_nil : x ≠ []
  blank : ∀ c ∈ x, isBlank c = true
  lineFeed_not_mem : '\n' ∉ x

/-- A line that is blank or whose first character that is not blank starts a comment. -/
def IsIgnored (l : List Char) : Prop :=
  '\n' ∉ l ∧ ∀ c ∈ (l.dropWhile isBlank).head?, c = commentMark

/-- What stands before the first character of a line. -/
def EndsLine (pre : List Char) : Prop :=
  ∀ c ∈ pre.getLast?, c = '\n'

/-- What stands after the last character of a line. -/
def FollowsLine (post : List Char) : Prop :=
  ∀ c ∈ post.head?, c = '\n'

/-- One edit of the layout of a text. A carriage return is white space too: what is added before the
one that ends a line makes a gap longer. -/
inductive LayoutEdit : List Char → List Char → Prop where
  /-- A line that does not count is inserted. -/
  | line {pre l : List Char} (post : List Char) (hpre : EndsLine pre) (hl : IsIgnored l) :
      LayoutEdit (pre ++ post) (pre ++ (l ++ '\n' :: post))
  /-- A gap is replaced by another, between two words or anywhere else. -/
  | gap (pre post : List Char) {x y : List Char} (hx : IsGap x) (hy : IsGap y) :
      LayoutEdit (pre ++ (x ++ post)) (pre ++ (y ++ post))
  /-- White space is added at the start of a line. -/
  | leading {pre x : List Char} (post : List Char) (hpre : EndsLine pre) (hx : IsGap x) :
      LayoutEdit (pre ++ post) (pre ++ (x ++ post))
  /-- White space is added at the end of a line. -/
  | trailing (pre : List Char) {post x : List Char} (hpost : FollowsLine post) (hx : IsGap x) :
      LayoutEdit (pre ++ post) (pre ++ (x ++ post))
  /-- A line that ended with a line feed ends with a carriage return and a line feed. -/
  | carriageReturn (pre post : List Char) :
      LayoutEdit (pre ++ '\n' :: post) (pre ++ '\r' :: '\n' :: post)
  /-- A line feed is added at the end of the text. -/
  | finalLineFeed (cs : List Char) : LayoutEdit cs (cs ++ ['\n'])

/-! ### Pieces of a text -/

/-- The words of the lines that count. -/
def countedLines (cs : List Char) : List (List (List Char)) :=
  ((lines cs).map words).filter isLogical

theorem countedLines_append_lineFeed (xs ys : List Char) :
    countedLines (xs ++ '\n' :: ys) = countedLines xs ++ countedLines ys := by
  have hlines : lines (xs ++ '\n' :: ys) = lines xs ++ lines ys :=
    List.splitOnP_append_cons xs ys (by simp)
  rw [countedLines, hlines, List.map_append, List.filter_append]
  rfl

theorem countedLines_of_lineFeed_not_mem {l : List Char} (h : '\n' ∉ l) :
    countedLines l = [words l].filter isLogical := by
  have hline : lines l = [l] :=
    List.splitOnP_eq_singleton fun c hc ↦ by
      rw [beq_eq_false_iff_ne]
      rintro rfl
      exact h hc
  rw [countedLines, hline, List.map_singleton]

@[simp]
theorem countedLines_nil : countedLines [] = [] := rfl

/-- What stands before a piece comes down to the part of its own line. -/
theorem exists_countedLines_append (pre : List Char) :
    ∃ ls head, '\n' ∉ head ∧ (EndsLine pre → head = []) ∧
      ∀ cs, countedLines (pre ++ cs) = ls ++ countedLines (head ++ cs) := by
  induction pre using List.reverseRecOn with
  | nil => exact ⟨[], [], List.not_mem_nil, fun _ ↦ rfl, fun _ ↦ rfl⟩
  | append_singleton pre c ih =>
    obtain ⟨ls, head, hhead, -, hsplit⟩ := ih
    by_cases hc : c = '\n'
    · refine ⟨ls ++ countedLines head, [], List.not_mem_nil, fun _ ↦ rfl, fun cs ↦ ?_⟩
      rw [hc, List.append_assoc, List.singleton_append, hsplit, countedLines_append_lineFeed,
        List.append_assoc, List.nil_append]
    · refine ⟨ls, head ++ [c], by simp [hhead, Ne.symm hc], fun hends ↦ ?_, fun cs ↦ ?_⟩
      · exact absurd (hends c (by simp)) hc
      · rw [List.append_assoc, hsplit, List.append_assoc]

/-- What stands after a piece comes down to the part of its own line. -/
theorem exists_countedLines_prepend (post : List Char) :
    ∃ tail ls, '\n' ∉ tail ∧ (FollowsLine post → tail = []) ∧
      ∀ cs, countedLines (cs ++ post) = countedLines (cs ++ tail) ++ ls := by
  by_cases hmem : '\n' ∈ post
  · obtain ⟨tail, rest, rfl, htail⟩ := List.eq_append_cons_of_mem hmem
    refine ⟨tail, countedLines rest, htail, fun hfollows ↦ ?_, fun cs ↦ ?_⟩
    · rcases tail with - | ⟨c, tail⟩
      · rfl
      · exact absurd (List.mem_cons.2 (.inl (hfollows c rfl).symm)) htail
    · rw [← List.append_assoc, countedLines_append_lineFeed]
  · refine ⟨post, [], hmem, fun hfollows ↦ ?_, fun cs ↦ (List.append_nil _).symm⟩
    rcases post with - | ⟨c, post⟩
    · rfl
    · exact absurd (List.mem_cons.2 (.inl (hfollows c rfl).symm)) hmem

/-- A piece without a line feed touches one line. -/
theorem exists_countedLines_around (pre post : List Char) :
    ∃ before head tail after, (EndsLine pre → head = []) ∧ (FollowsLine post → tail = []) ∧
      ∀ x, '\n' ∉ x → countedLines (pre ++ (x ++ post)) =
        before ++ [words (head ++ (x ++ tail))].filter isLogical ++ after := by
  obtain ⟨before, head, hhead, hpre, hleft⟩ := exists_countedLines_append pre
  obtain ⟨tail, after, htail, hpost, hright⟩ := exists_countedLines_prepend post
  refine ⟨before, head, tail, after, hpre, hpost, fun x hx ↦ ?_⟩
  have hline : '\n' ∉ head ++ (x ++ tail) := by simp [hhead, hx, htail]
  rw [hleft, ← List.append_assoc head, hright, List.append_assoc head,
    countedLines_of_lineFeed_not_mem hline, List.append_assoc]

/-! ### White space and the words around it -/

theorem isGap_singleton (c : Char) (hc : isBlank c = true := by decide)
    (hne : '\n' ≠ c := by decide) : IsGap [c] where
  ne_nil := List.cons_ne_nil c []
  blank := List.forall_mem_singleton.2 hc
  lineFeed_not_mem := by simpa using hne

theorem words_append_of_isBlank {x : List Char} (hx : ∀ c ∈ x, isBlank c = true) (cs : List Char) :
    words (x ++ cs) = words cs := by
  induction x with
  | nil => rfl
  | cons c x ih =>
    obtain ⟨hc, hx⟩ := List.forall_mem_cons.1 hx
    rw [List.cons_append, words_cons_of_isBlank hc, ih hx]

/-- A gap separates words, whatever it is made of. -/
theorem words_append_gap {x : List Char} (hx : IsGap x) (head tail : List Char) :
    words (head ++ (x ++ tail)) = words head ++ words tail := by
  obtain ⟨c, x, rfl⟩ := List.exists_cons_of_ne_nil hx.ne_nil
  obtain ⟨hc, hblank⟩ := List.forall_mem_cons.1 hx.blank
  rw [List.cons_append, words, List.splitOnP_append_cons _ _ hc, List.filter_append]
  exact congrArg (words head ++ ·) (words_append_of_isBlank hblank tail)

theorem isLogical_words_eq_false_iff {l : List Char} :
    isLogical (words l) = false ↔ ∀ c ∈ (l.dropWhile isBlank).head?, c = commentMark := by
  induction l with
  | nil => simp [words, isLogical]
  | cons c l ih =>
    by_cases hc : isBlank c = true
    · rw [words_cons_of_isBlank hc, List.dropWhile_cons_of_pos hc, ih]
    · obtain ⟨w, rest, hsplit, hne, hw, hend⟩ := exists_word_append (by simpa using hc) l
      obtain ⟨d, w, rfl⟩ := List.exists_cons_of_ne_nil hne
      obtain rfl : c = d := (List.cons.inj hsplit).1
      rw [List.dropWhile_cons_of_neg hc, hsplit, words_append hne hw hend]
      simp [isLogical]

/-- A line that is ignored has no words that count. -/
theorem IsIgnored.countedLines_eq_nil {l : List Char} (h : IsIgnored l) : countedLines l = [] := by
  rw [countedLines_of_lineFeed_not_mem h.1, List.filter_singleton,
    isLogical_words_eq_false_iff.2 h.2]
  rfl

/-! ### No edit shows -/

namespace LayoutEdit

theorem countedLines_trailing (pre : List Char) {post x : List Char} (hpost : FollowsLine post)
    (hx : IsGap x) : countedLines (pre ++ post) = countedLines (pre ++ (x ++ post)) := by
  obtain ⟨before, head, tail, after, -, htail, hlines⟩ := exists_countedLines_around pre post
  obtain rfl := htail hpost
  rw [hlines x hx.lineFeed_not_mem, words_append_gap hx]
  exact (hlines [] List.not_mem_nil).trans (by simp [words])

/-- An edit of the layout leaves the words of the lines that count. -/
theorem countedLines_eq {cs ds : List Char} (h : LayoutEdit cs ds) :
    countedLines cs = countedLines ds := by
  cases h with
  | @line pre l post hpre hl =>
    obtain ⟨ls, head, -, hhead, hsplit⟩ := exists_countedLines_append pre
    obtain rfl := hhead hpre
    rw [hsplit, hsplit, List.nil_append, List.nil_append, countedLines_append_lineFeed,
      hl.countedLines_eq_nil, List.nil_append]
  | gap pre post hx hy =>
    obtain ⟨before, head, tail, after, -, -, hlines⟩ := exists_countedLines_around pre post
    rw [hlines _ hx.lineFeed_not_mem, hlines _ hy.lineFeed_not_mem, words_append_gap hx,
      words_append_gap hy]
  | @leading pre x post hpre hx =>
    obtain ⟨before, head, tail, after, hhead, -, hlines⟩ := exists_countedLines_around pre post
    obtain rfl := hhead hpre
    rw [hlines x hx.lineFeed_not_mem, words_append_gap hx]
    exact hlines [] List.not_mem_nil
  | trailing pre hpost hx => exact countedLines_trailing pre hpost hx
  | carriageReturn pre post =>
    exact countedLines_trailing pre (by simp [FollowsLine]) (isGap_singleton '\r')
  | finalLineFeed cs => rw [countedLines_append_lineFeed, countedLines_nil, List.append_nil]

end LayoutEdit

theorem countedLines_eq_of_eqvGen {cs ds : List Char} (h : Relation.EqvGen LayoutEdit cs ds) :
    countedLines cs = countedLines ds := by
  induction h with
  | rel cs ds hedit => exact hedit.countedLines_eq
  | refl cs => rfl
  | symm cs ds _ ih => exact ih.symm
  | trans cs ds es _ _ ih ih' => exact ih.trans ih'

/-! ### The normal form -/

/-- Lines of words as a text: each word after one space, each line with a line feed at its end. -/
def layOut (wss : List (List (List Char))) : List Char :=
  wss.flatMap fun ws ↦ ws.flatMap (' ' :: ·) ++ ['\n']

/-- Between a word and the next, or the end of the line, edits leave one space, or nothing. The gap
that the induction collects may be empty as long as what comes next does not go on with the word. -/
theorem eqvGen_words {l : List Char} {ws : List (List Char)} (hl : AreWords l ws)
    (hfeed : '\n' ∉ l) (pre post : List Char) {x : List Char} (hx : ∀ c ∈ x, isBlank c = true)
    (hxfeed : '\n' ∉ x) (hnext : x = [] → ∀ c ∈ l.head?, isBlank c = true) :
    Relation.EqvGen LayoutEdit (pre ++ (x ++ (l ++ '\n' :: post)))
      (pre ++ (ws.flatMap (' ' :: ·) ++ '\n' :: post)) := by
  induction hl generalizing pre x with
  | nil =>
    by_cases hnil : x = []
    · rw [hnil]
      exact .refl _
    · exact .symm _ _ (.rel _ _ (.trailing pre (by simp [FollowsLine]) ⟨hnil, hx, hxfeed⟩))
  | @blank c cs ws hc _ ih =>
    have hmore := ih (fun h ↦ hfeed (List.mem_cons_of_mem c h)) pre (x := x ++ [c])
      (List.forall_mem_append.2 ⟨hx, by simpa using hc⟩)
      (by simpa [hxfeed] using fun h ↦ hfeed (List.mem_cons.2 (.inl h))) (by simp)
    simpa only [List.append_assoc, List.cons_append, List.nil_append] using hmore
  | @word w cs ws hne hw hend _ ih =>
    have hgap : IsGap x := by
      refine ⟨fun hnil ↦ ?_, hx, hxfeed⟩
      obtain ⟨c, w, rfl⟩ := List.exists_cons_of_ne_nil hne
      have hblank := hnext hnil c rfl
      rw [hw c List.mem_cons_self] at hblank
      cases hblank
    have hspace : LayoutEdit (pre ++ (x ++ (w ++ cs ++ '\n' :: post)))
        (pre ++ ([' '] ++ (w ++ cs ++ '\n' :: post))) := .gap _ _ hgap (isGap_singleton ' ')
    have hrest := ih (fun h ↦ hfeed (List.mem_append_right w h)) (pre ++ ' ' :: w) (x := [])
      (by simp) (by simp) fun _ ↦ hend
    refine .trans _ _ _ (.rel _ _ hspace) ?_
    simpa using hrest

/-- Edits bring the line after a prefix into normal form. -/
theorem eqvGen_line {pre l : List Char} (hpre : EndsLine pre) (hl : '\n' ∉ l) (post : List Char) :
    Relation.EqvGen LayoutEdit (pre ++ (l ++ '\n' :: post))
      (pre ++ (layOut (countedLines l) ++ post)) := by
  rw [countedLines_of_lineFeed_not_mem hl, List.filter_singleton]
  rcases hlogical : isLogical (words l) with _ | _
  · exact .symm _ _ (.rel _ _ (.line post hpre ⟨hl, isLogical_words_eq_false_iff.1 hlogical⟩))
  · have hspace := isGap_singleton ' '
    have hspaced := eqvGen_words (areWords_words l) hl pre post hspace.blank
      hspace.lineFeed_not_mem (by simp)
    refine .trans _ _ _ (.rel _ _ (.leading _ hpre hspace)) ?_
    simpa [layOut] using hspaced

theorem endsLine_append_layOut {pre : List Char} (hpre : EndsLine pre)
    (wss : List (List (List Char))) : EndsLine (pre ++ layOut wss) := by
  induction wss using List.reverseRecOn with
  | nil => simpa [layOut] using hpre
  | append_singleton wss ws => simp [layOut, EndsLine]

/-- Edits bring the text after a prefix into normal form. -/
theorem eqvGen_append_layOut {pre : List Char} (hpre : EndsLine pre) (cs : List Char) :
    Relation.EqvGen LayoutEdit (pre ++ (cs ++ ['\n'])) (pre ++ layOut (countedLines cs)) := by
  -- A line takes several characters at once, so the induction is on their number.
  induction hn : cs.length using Nat.strong_induction_on generalizing pre cs with
  | _ n ih =>
    by_cases hmem : '\n' ∈ cs
    · obtain ⟨l, rest, rfl, hl⟩ := List.eq_append_cons_of_mem hmem
      have hline := eqvGen_line hpre hl (rest ++ ['\n'])
      have hrest := ih rest.length (by rw [← hn]; simp; omega)
        (endsLine_append_layOut hpre (countedLines l)) rest rfl
      rw [List.append_assoc, List.append_assoc] at hrest
      rw [countedLines_append_lineFeed, layOut, List.flatMap_append, List.append_assoc l]
      exact .trans _ _ _ hline hrest
    · simpa using eqvGen_line hpre hmem []

/-- Edits bring every text into normal form. -/
theorem eqvGen_layOut (cs : List Char) :
    Relation.EqvGen LayoutEdit cs (layOut (countedLines cs)) :=
  .trans _ _ _ (.rel _ _ (.finalLineFeed cs))
    (@eqvGen_append_layOut [] (by simp [EndsLine]) cs)

/-- Edits of the layout connect the texts whose lines that count have the same words. -/
theorem eqvGen_iff_countedLines_eq {cs ds : List Char} :
    Relation.EqvGen LayoutEdit cs ds ↔ countedLines cs = countedLines ds := by
  refine ⟨countedLines_eq_of_eqvGen, fun heq ↦ ?_⟩
  have hcs := eqvGen_layOut cs
  rw [heq] at hcs
  exact .trans _ _ _ hcs (.symm _ _ (eqvGen_layOut ds))

end Text

/-! ### Rows -/

namespace Token

/-- The words of the lines that count, read off the rows. -/
theorem map_words_rows (text : String) :
    (Token.rows text).map (·.flatMap Token.words) = logicalLines text := by
  refine List.ext_getElem (by simp [Token.rows]) fun i hi hi' ↦ ?_
  simp [Token.rows, words_ofWords]

theorem rows_eq_iff_countedLines_eq {s t : String} :
    Token.rows s = Token.rows t ↔ Text.countedLines s.toList = Text.countedLines t.toList := by
  have hinj : Function.Injective (List.map (List.map String.ofList)) :=
    List.map_injective_iff.2 (List.map_injective_iff.2 fun _ _ ↦ String.ofList_injective)
  constructor
  · intro hrows
    have hlogical : logicalLines s = logicalLines t := by
      rw [← map_words_rows, hrows, map_words_rows]
    exact hinj hlogical
  · intro hlines
    have hlogical : logicalLines s = logicalLines t :=
      congrArg (List.map (List.map String.ofList)) hlines
    rw [Token.rows, hlogical, Token.rows]

/-- **Layout does not matter, and nothing but layout is lost.** Two texts have the same rows exactly
when edits of the layout, in any number and either way, lead from one to the other; and then they
read as the same program, or are refused with the same error. -/
theorem rows_eq_iff_layoutEdits (s t : String) :
    (Relation.EqvGen Text.LayoutEdit s.toList t.toList ↔ Token.rows s = Token.rows t) ∧
      (Relation.EqvGen Text.LayoutEdit s.toList t.toList →
        Program.ofText s = Program.ofText t) := by
  have hiff : Relation.EqvGen Text.LayoutEdit s.toList t.toList ↔ Token.rows s = Token.rows t :=
    Text.eqvGen_iff_countedLines_eq.trans rows_eq_iff_countedLines_eq.symm
  exact ⟨hiff, fun h ↦ congrArg Program.ofRows (hiff.1 h)⟩

/-- A comment, a no-break space, a carriage return, a tab and a final line feed, one after the
other. -/
theorem rows_eq_iff_layoutEdits_mixed :
    Relation.EqvGen Text.LayoutEdit "set value to 2\nexit".toList
        "#\nset\u00a0value to 2\r\n\texit\n".toList ∧
      Token.rows "set value to 2\nexit" =
        Token.rows "#\nset\u00a0value to 2\r\n\texit\n" ∧
      Program.ofText "set value to 2\nexit" =
        Program.ofText "#\nset\u00a0value to 2\r\n\texit\n" := by
  have hedits : Relation.EqvGen Text.LayoutEdit "set value to 2\nexit".toList
      "#\nset\u00a0value to 2\r\n\texit\n".toList := by
    have hcomment : Text.LayoutEdit "set value to 2\nexit".toList
        "#\nset value to 2\nexit".toList :=
      @Text.LayoutEdit.line [] "#".toList _ (by simp [Text.EndsLine])
        ⟨by decide, fun c hc ↦ (Option.some.inj hc).symm⟩
    have hgap : Text.LayoutEdit "#\nset value to 2\nexit".toList
        "#\nset\u00a0value to 2\nexit".toList :=
      .gap "#\nset".toList "value to 2\nexit".toList (Text.isGap_singleton ' ')
        (Text.isGap_singleton '\u00a0')
    have hreturn : Text.LayoutEdit "#\nset\u00a0value to 2\nexit".toList
        "#\nset\u00a0value to 2\r\nexit".toList :=
      .carriageReturn "#\nset\u00a0value to 2".toList "exit".toList
    have htab : Text.LayoutEdit "#\nset\u00a0value to 2\r\nexit".toList
        "#\nset\u00a0value to 2\r\n\texit".toList :=
      @Text.LayoutEdit.leading "#\nset\u00a0value to 2\r\n".toList _ "exit".toList
        (by simp [Text.EndsLine]) (Text.isGap_singleton '\t')
    have hfinal : Text.LayoutEdit "#\nset\u00a0value to 2\r\n\texit".toList
        "#\nset\u00a0value to 2\r\n\texit\n".toList :=
      .finalLineFeed _
    exact .trans _ _ _ (.rel _ _ hcomment) (.trans _ _ _ (.rel _ _ hgap)
      (.trans _ _ _ (.rel _ _ hreturn) (.trans _ _ _ (.rel _ _ htab) (.rel _ _ hfinal))))
  have hrows := rows_eq_iff_layoutEdits "set value to 2\nexit"
    "#\nset\u00a0value to 2\r\n\texit\n"
  exact ⟨hedits, hrows.1.1 hedits, hrows.2 hedits⟩

end Token

end CursorMachine
