import CursorMachine.Token

/-!
# The scan of a line, in place

`Token.ofWords` is handed the words of a line one by one. The same scan can work on the row itself,
where every word is a token of its own at first: a loop moves two indices along the row, and folds
the tokens between them into one when they spell a keyword. The row gets shorter while it is walked
over, and an index may go back. `Reassembly.pass?` is one pass of that loop, with a check at each
place where it reads or changes the row.

Main statement: no check fails, whatever tokens the row is made of, and the loop makes one pass for
each of them (`Reassembly.exists_passes?`). On a row of words it does what `Token.ofWords` does.

The indices are but a way to cut the row into parts: what is settled, the run held back, and the
rest. A pass takes one token off the rest and gives it to the other two (`Reassembly.pass?_before`),
so the number of passes is plain, and what holds of the run is shown of `Parts.push` alone.
-/

namespace CursorMachine

/-! ### Words given up -/

namespace Scan

theorem take_release (ws : List String) : ws.take (release ws).1.length = (release ws).1 :=
  (List.prefix_iff_eq_take.1 ⟨_, release_append ws⟩).symm

theorem drop_release (ws : List String) : ws.drop (release ws).1.length = (release ws).2 := by
  have h := List.take_append_drop (release ws).1.length ws
  rw [take_release] at h
  exact List.append_cancel_left (h.trans (release_append ws).symm)

end Scan

/-! ### Phrases as texts -/

namespace Keyword

/-- The keyword of several words that a text spells. -/
def ofPhrase? (text : String) : Option Keyword :=
  all.find? fun k ↦ k.phrase.toList.contains ' ' && k.phrase == text

/-- Where the words begin the phrase of a keyword, it is all the same whether they are compared with
phrases as one text or word by word. -/
theorem ofPhrase?_intercalate {ws : List String} (h : isPhraseStart ws = true) :
    ofPhrase? (" ".intercalate ws) = ofWords? ws := by
  have hall : ∀ k ∈ all, 1 < k.words.length → ∀ n ≤ k.words.length,
      ofPhrase? (" ".intercalate (k.words.take n)) = ofWords? (k.words.take n) := by
    decide +kernel
  obtain ⟨k, hk, hprefix⟩ := isPhraseStart_iff.1 h
  rw [List.prefix_iff_eq_take.1 hprefix]
  exact hall k (mem_all k) hk ws.length hprefix.length_le

end Keyword

/-- The token of a word that stands alone. -/
def Token.ofWord (line : Nat) (word : String) : Token :=
  match Keyword.ofWords? [word] with
  | some k => ⟨.keyword k, line, word⟩
  | none => Token.literal line word

/-- The words of tokens as one text. -/
def Token.joined (ts : List Token) : String :=
  " ".intercalate (ts.map Token.content)

/-! ### The loop -/

/-- The state of the loop. -/
structure Reassembly where
  /-- The tokens of the line, of which some may be folded already. -/
  row : List Token
  /-- Where the run that may become a keyword starts. -/
  start : Nat
  /-- The token to be looked at, behind the run. -/
  index : Nat
  deriving DecidableEq, Repr

namespace Reassembly

/-- The tokens from the first index to the last, if they are in the row. -/
def slice? (row : List Token) (first last : Nat) : Option (List Token) :=
  if first ≤ last + 1 ∧ last < row.length then some ((row.take (last + 1)).drop first) else none

/-- The row without the tokens from the first index to the last, if they are in it. -/
def drain? (row : List Token) (first last : Nat) : Option (List Token) :=
  if first ≤ last + 1 ∧ last < row.length then some (row.take first ++ row.drop (last + 1))
  else none

/-- The row with a token put in at an index, if that is not beyond its end. -/
def insert? (row : List Token) (index : Nat) (token : Token) : Option (List Token) :=
  if index ≤ row.length then some (row.take index ++ token :: row.drop index) else none

/-- Goes on with the first index until the tokens from there to the last one begin a phrase, or
there are none. -/
def seek? (row : List Token) (first last : Nat) : Option Nat :=
  if first ≤ last then do
    let run ← slice? row first last
    if Keyword.isPhraseStart (run.map Token.content) then some first
    else seek? row (first + 1) last
  else some first
termination_by last + 1 - first

/-- Looks at the tokens from the start of the run to the index. When they spell a keyword, one token
takes their place. -/
def fold? (r : Reassembly) : Option Reassembly := do
  let run ← slice? r.row r.start r.index
  match Keyword.ofPhrase? (Token.joined run) with
  | some k =>
    let first ← r.row[r.start]?
    let rest ← drain? r.row r.start r.index
    let row ← insert? rest r.start ⟨.keyword k, first.line, Token.joined run⟩
    some { row, start := r.start + 1, index := r.start + 1 }
  | none => some { r with index := r.index + 1 }

/-- One pass of the loop. There is none without a token at the index. -/
def pass? (r : Reassembly) : Option Reassembly := do
  let token ← r.row[r.index]?
  if token.kind ≠ .literal then
    some { r with start := r.index + 1, index := r.index + 1 }
  else
    let start ← seek? r.row r.start r.index
    if start ≤ r.index then fold? { r with start }
    else some { r with start, index := r.index + 1 }

/-- A number of passes, one after the other. -/
def passes? : Nat → Reassembly → Option Reassembly
  | 0, r => some r
  | n + 1, r => r.pass?.bind (passes? n)

/-- Before the first pass. -/
def ofRow (row : List Token) : Reassembly := ⟨row, 0, 0⟩

/-- The tokens of the run. -/
def run (r : Reassembly) : List Token :=
  (r.row.take r.index).drop r.start

/-! ### Rows cut into parts -/

section Cut

variable {settled run rest : List Token} {last : Nat}

theorem slice?_cut (h : last + 1 = settled.length + run.length) :
    slice? (settled ++ (run ++ rest)) settled.length last = some run := by
  rw [slice?, if_pos (by simp only [List.length_append]; omega), h, ← List.append_assoc,
    ← List.length_append, List.take_left, List.drop_left]

theorem drain?_cut (h : last + 1 = settled.length + run.length) :
    drain? (settled ++ (run ++ rest)) settled.length last = some (settled ++ rest) := by
  rw [drain?, if_pos (by simp only [List.length_append]; omega), h, List.take_left,
    ← List.append_assoc, ← List.length_append, List.drop_left]

theorem insert?_cut (token : Token) :
    insert? (settled ++ rest) settled.length token = some (settled ++ token :: rest) := by
  rw [insert?, if_pos (by simp only [List.length_append]; omega), List.take_left, List.drop_left]

end Cut

/-- How many of these tokens are given up before the rest begins a phrase. -/
def released (ts : List Token) : Nat :=
  (Scan.release (ts.map Token.content)).1.length

theorem length_take_released (ts : List Token) : (ts.take (released ts)).length = released ts := by
  have hle := List.IsPrefix.length_le ⟨_, Scan.release_append (ts.map Token.content)⟩
  rw [List.length_map] at hle
  exact List.length_take_of_le hle

theorem isPhraseStart_drop_released (ts : List Token) :
    Keyword.isPhraseStart ((ts.drop (released ts)).map Token.content) = true := by
  rw [List.map_drop, released, Scan.drop_release]
  exact Scan.isPhraseStart_release _

/-- The search for the start of the run passes over the tokens that are given up. -/
theorem seek?_cut {settled run rest : List Token} {last : Nat}
    (h : last + 1 = settled.length + run.length) :
    seek? (settled ++ (run ++ rest)) settled.length last =
      some (settled.length + released run) := by
  induction run generalizing settled with
  | nil =>
    rw [seek?, if_neg (by rw [List.length_nil] at h; omega)]
    rfl
  | cons t run ih =>
    rw [seek?, if_pos (by rw [List.length_cons] at h; omega), slice?_cut h, released, List.map_cons,
      Scan.release]
    simp only [Option.bind_eq_bind, Option.bind_some, List.map_cons]
    split
    · rfl
    · have hnext : last + 1 = (settled ++ [t]).length + run.length := by
        simp only [List.length_append, List.length_cons, List.length_nil] at h ⊢
        omega
      have hmore := ih hnext
      rw [List.append_assoc, List.length_append, List.length_singleton] at hmore
      refine hmore.trans (congrArg some ?_)
      rw [List.length_cons, released]
      omega

/-- The tokens up to the index, in two parts. -/
structure Parts where
  /-- The tokens that no later one can change. -/
  settled : List Token
  /-- The tokens held back. -/
  run : List Token

namespace Parts

/-- The loop with these tokens behind it, and the rest ahead. -/
def before (p : Parts) (rest : List Token) : Reassembly :=
  ⟨p.settled ++ (p.run ++ rest), p.settled.length, p.settled.length + p.run.length⟩

/-- Holds tokens back, unless they spell a keyword. -/
def hold (settled : List Token) : List Token → Parts
  | [] => ⟨settled, []⟩
  | first :: run =>
    match Keyword.ofPhrase? (Token.joined (first :: run)) with
    | some k => ⟨settled ++ [⟨.keyword k, first.line, Token.joined (first :: run)⟩], []⟩
    | none => ⟨settled, first :: run⟩

/-- Takes over one token. -/
def push (p : Parts) (t : Token) : Parts :=
  if t.kind ≠ .literal then ⟨p.settled ++ (p.run ++ [t]), []⟩
  else
    hold (p.settled ++ (p.run ++ [t]).take (released (p.run ++ [t])))
      ((p.run ++ [t]).drop (released (p.run ++ [t])))

end Parts

theorem fold?_cut {settled run rest : List Token} {last : Nat}
    (h : last + 1 = settled.length + run.length) (hrun : run ≠ []) :
    fold? ⟨settled ++ (run ++ rest), settled.length, last⟩ =
      some ((Parts.hold settled run).before rest) := by
  obtain ⟨first, run, rfl⟩ := List.exists_cons_of_ne_nil hrun
  have hfirst : (settled ++ (first :: run ++ rest))[settled.length]? = some first := by
    rw [List.getElem?_append_right (Nat.le_refl _), Nat.sub_self, List.cons_append,
      List.getElem?_cons_zero]
  rw [fold?, Parts.hold]
  dsimp only
  rw [slice?_cut h]
  simp only [Option.bind_eq_bind, Option.bind_some]
  split
  · rw [hfirst, drain?_cut h]
    simp only [Option.bind_some]
    rw [insert?_cut]
    simp [Parts.before]
  · simp [Parts.before, h]

/-- **A pass takes over the next token**, and no check in it fails. -/
theorem pass?_before (p : Parts) (t : Token) (rest : List Token) :
    (p.before (t :: rest)).pass? = some ((p.push t).before rest) := by
  have htoken : (p.settled ++ (p.run ++ t :: rest))[p.settled.length + p.run.length]? = some t := by
    rw [← List.append_assoc, ← List.length_append, List.getElem?_append_right (Nat.le_refl _),
      Nat.sub_self, List.getElem?_cons_zero]
  have hrow : p.settled ++ (p.run ++ t :: rest) = p.settled ++ ((p.run ++ [t]) ++ rest) := by
    simp
  have hlast : p.settled.length + p.run.length + 1 = p.settled.length + (p.run ++ [t]).length := by
    simp [Nat.add_assoc]
  rw [Parts.before, pass?, Parts.push]
  dsimp only
  rw [htoken]
  simp only [Option.bind_eq_bind, Option.bind_some]
  split
  · simp [Parts.before, Nat.add_assoc]
  · obtain ⟨given, kept, hgiven, hkept⟩ : ∃ given kept,
        (p.run ++ [t]).take (released (p.run ++ [t])) = given ∧
        (p.run ++ [t]).drop (released (p.run ++ [t])) = kept :=
      ⟨_, _, rfl, rfl⟩
    have hsplit : given ++ kept = p.run ++ [t] := by
      rw [← hgiven, ← hkept, List.take_append_drop]
    have hstart : p.settled.length + released (p.run ++ [t]) = (p.settled ++ given).length := by
      rw [← length_take_released, hgiven, List.length_append]
    have hindex : p.settled.length + p.run.length + 1 =
        (p.settled ++ given).length + kept.length := by
      rw [hlast, ← hsplit, List.length_append, List.length_append, Nat.add_assoc]
    rw [hrow, seek?_cut hlast, hgiven, hkept, hstart, ← hsplit, List.append_assoc,
      ← List.append_assoc]
    dsimp only [Option.bind_some]
    -- The run is empty just if the search has passed the index.
    split
    · refine fold?_cut hindex ?_
      rintro rfl
      rw [List.length_nil] at hindex
      omega
    · obtain rfl : kept = [] := by
        rw [← List.length_eq_zero_iff]
        omega
      rw [hindex]
      rfl

/-! ### Runs -/

/-- What a run may be: literals, whose words begin the phrase of a keyword of several words without
spelling all of it. There may be none. -/
def IsRun (ts : List Token) : Prop :=
  (∀ t ∈ ts, t.kind = .literal) ∧
    ∃ k : Keyword, 1 < k.words.length ∧ ts.map Token.content <+: k.words ∧
      ts.map Token.content ≠ k.words

theorem isRun_nil : IsRun [] :=
  ⟨List.forall_mem_nil _, .moveTo, by decide, List.nil_prefix, by decide⟩

/-- Tokens that begin a phrase and are not folded are a run. -/
theorem isRun_of_isPhraseStart {ts : List Token} (hliteral : ∀ t ∈ ts, t.kind = .literal)
    (hstart : Keyword.isPhraseStart (ts.map Token.content) = true)
    (hnone : Keyword.ofPhrase? (Token.joined ts) = none) : IsRun ts := by
  obtain ⟨k, hk, hprefix⟩ := Keyword.isPhraseStart_iff.1 hstart
  rw [Token.joined, Keyword.ofPhrase?_intercalate hstart] at hnone
  exact ⟨hliteral, k, hk, hprefix, fun h ↦ Keyword.ofWords?_eq_none_iff.1 hnone k h.symm⟩

theorem Parts.isRun_push {p : Parts} (h : IsRun p.run) (t : Token) : IsRun (p.push t).run := by
  unfold push
  split
  · exact isRun_nil
  next hkind =>
    have hliteral : ∀ u ∈ (p.run ++ [t]).drop (released (p.run ++ [t])), u.kind = .literal := by
      intro u hu
      rcases List.mem_append.1 (List.mem_of_mem_drop hu) with hmem | hmem
      · exact h.1 u hmem
      · rw [List.mem_singleton.1 hmem]
        exact Decidable.not_not.1 hkind
    have hstart := isPhraseStart_drop_released (p.run ++ [t])
    unfold hold
    split
    · exact isRun_nil
    next first run heq =>
      rw [heq] at hliteral hstart
      split
      · exact isRun_nil
      next hnone => exact isRun_of_isPhraseStart hliteral hstart hnone

theorem Parts.isRun_foldl_push {p : Parts} (h : IsRun p.run) (ts : List Token) :
    IsRun (ts.foldl push p).run := by
  induction ts generalizing p with
  | nil => exact h
  | cons t ts ih => exact ih (isRun_push h t)

/-- **Passes take over the tokens one by one.** -/
theorem passes?_before (p : Parts) (ts rest : List Token) :
    passes? ts.length (p.before (ts ++ rest)) = some ((ts.foldl Parts.push p).before rest) := by
  induction ts generalizing p with
  | nil => rfl
  | cons t ts ih =>
    rw [List.length_cons, passes?, List.cons_append, pass?_before, Option.bind_some, ih,
      List.foldl_cons]

/-! ### Rows of words -/

namespace Parts

variable (line : Nat)

/-- A scan word by word, in two parts. -/
def ofScan (s : Scan) : Parts :=
  ⟨s.settled.reverse, s.run.map (Token.literal line)⟩

theorem map_content_map_literal (ws : List String) :
    (ws.map (Token.literal line)).map Token.content = ws := by
  simp [Token.literal, Function.comp_def]

/-- Of words that begin a phrase, those are held back that do not spell a keyword. -/
theorem hold_map_literal (settled : List Token) {ws : List String}
    (h : Keyword.isPhraseStart ws = true) :
    hold settled (ws.map (Token.literal line)) =
      match Keyword.ofWords? ws with
      | some k => ⟨settled ++ [Token.keyword line k], []⟩
      | none => ⟨settled, ws.map (Token.literal line)⟩ := by
  have hjoined : Token.joined (ws.map (Token.literal line)) = " ".intercalate ws := by
    rw [Token.joined, map_content_map_literal]
  cases ws with
  | nil => rfl
  | cons w ws =>
    rw [List.map_cons] at hjoined ⊢
    rw [hold, hjoined, Keyword.ofPhrase?_intercalate h]
    split
    next k hk =>
      rw [Token.keyword, Keyword.phrase, Keyword.words_of_ofWords? hk]
      rfl
    next => rfl

/-- A token taken over and a word read come to the same. -/
theorem push_ofScan (s : Scan) (w : String) :
    (ofScan line s).push (Token.ofWord line w) = ofScan line (s.push line w) := by
  cases hk : Keyword.ofWords? [w] with
  | some k =>
    have hphrase : k.phrase = w := by
      rw [Keyword.phrase, Keyword.words_of_ofWords? hk]
      rfl
    simp [Token.ofWord, Scan.push, hk, push, ofScan, Scan.settleKeyword, Scan.settle, Token.keyword,
      hphrase]
  | none =>
    have hrun : s.run.map (Token.literal line) ++ [Token.literal line w] =
        (s.run ++ [w]).map (Token.literal line) := by
      rw [List.map_append, List.map_singleton]
    simp only [Token.ofWord, Scan.push, hk]
    rw [push, if_neg (by simp [Token.literal]), ofScan, hrun, released, map_content_map_literal,
      ← List.map_take, ← List.map_drop, Scan.take_release, Scan.drop_release,
      hold_map_literal line _ (Scan.isPhraseStart_release _)]
    cases Keyword.ofWords? (Scan.release (s.run ++ [w])).2 <;>
      simp [ofScan, Scan.settleKeyword, Scan.settle]

theorem foldl_push_ofScan (s : Scan) (ws : List String) :
    (ws.map (Token.ofWord line)).foldl push (ofScan line s) =
      ofScan line (ws.foldl (Scan.push line) s) := by
  induction ws generalizing s with
  | nil => rfl
  | cons w ws ih => rw [List.map_cons, List.foldl_cons, push_ofScan, ih, List.foldl_cons]

end Parts

/-! ### The whole loop -/

/-- What holds whenever the loop is about to look at the index. -/
structure AtHead (r : Reassembly) : Prop where
  start_le : r.start ≤ r.index
  index_le : r.index ≤ r.row.length
  isRun : IsRun r.run

theorem Parts.atHead_before {p : Parts} (h : IsRun p.run) (rest : List Token) :
    (p.before rest).AtHead where
  start_le := Nat.le_add_right _ _
  index_le := by simp [before, ← Nat.add_assoc]
  isRun := by
    have hrun : (p.before rest).run = p.run := by
      rw [Reassembly.run, before, ← List.append_assoc, ← List.length_append, List.take_left,
        List.drop_left]
    rwa [hrun]

/-- On a row of words, the loop behind its last token has the tokens of the line. -/
theorem row_before_of_words (line : Nat) (ws : List String) :
    (((ws.map (Token.ofWord line)).foldl Parts.push ⟨[], []⟩).before []).row =
      Token.ofWords line ws := by
  have hstart : (⟨[], []⟩ : Parts) = .ofScan line Scan.start := rfl
  rw [hstart, Parts.foldl_push_ofScan]
  simp [Parts.before, Parts.ofScan, Token.ofWords, Scan.tokens, Scan.settle]

/-- **The loop stays inside the row and makes one pass for each of its tokens**, whatever tokens
these are. Any number of passes can be made up to that number, so nothing is read, taken out or put
in where the row does not reach. The loop is at its head then, with a run of literals between the
indices that begins a phrase, and it has as many tokens ahead as passes are left: it goes on unless
none is. On a row of words it ends with the tokens of the line. -/
theorem exists_passes? (row : List Token) :
    ∀ n ≤ row.length, ∃ r, passes? n (ofRow row) = some r ∧ r.AtHead ∧
      r.row.length - r.index = row.length - n ∧ (r.index < r.row.length ↔ n < row.length) ∧
      (n = row.length → ∀ line ws, row = ws.map (Token.ofWord line) →
        r.row = Token.ofWords line ws) := by
  intro n hn
  obtain ⟨r, hr⟩ : ∃ r, r = ((row.take n).foldl Parts.push ⟨[], []⟩).before (row.drop n) :=
    ⟨_, rfl⟩
  have hpasses : passes? n (ofRow row) = some r := by
    have h := passes?_before ⟨[], []⟩ (row.take n) (row.drop n)
    rwa [List.length_take_of_le hn, List.take_append_drop, ← hr] at h
  have hahead : r.row.length = r.index + (row.length - n) := by
    simp [hr, Parts.before, Nat.add_assoc]
  refine ⟨r, hpasses, ?_, by omega, by omega, ?_⟩
  · rw [hr]
    exact Parts.atHead_before (Parts.isRun_foldl_push isRun_nil _) _
  · rintro rfl line ws rfl
    rw [hr, List.take_length, List.drop_length, row_before_of_words]

/-- A row in which a phrase starts anew: five tokens, five passes, and three tokens are left. -/
theorem exists_passes?_plus_plus :
    ∃ r, passes? 5 (ofRow (["plus", "plus", "memory", "pointer", "make"].map (Token.ofWord 3))) =
        some r ∧ r.AtHead ∧ r.index = 3 ∧
      r.row = [.literal 3 "plus", .keyword 3 (.moveBy .forward), .literal 3 "make"] := by
  obtain ⟨r, hpasses, hhead, hahead, -, hwords⟩ := exists_passes?
    (["plus", "plus", "memory", "pointer", "make"].map (Token.ofWord 3)) 5 (by decide)
  have hrow : r.row = [.literal 3 "plus", .keyword 3 (.moveBy .forward), .literal 3 "make"] := by
    rw [hwords rfl 3 _ rfl]
    decide +kernel
  have hindex := hhead.index_le
  rw [hrow] at hahead hindex
  refine ⟨r, hpasses, hhead, ?_, hrow⟩
  simp only [List.length_map, List.length_cons, List.length_nil] at hahead hindex
  omega

end Reassembly

end CursorMachine
