import CursorMachine.Proofs.Reading.Display

/-!
# The scan of a line, without its state

`Token.ofWords` reads a line word by word and holds words back. `Token.Leftmost` says what comes of
it without any state: where the words of a keyword stand, they are one token, and any other word is
a literal. Main statement: the two agree on every line (`Token.leftmost_iff_eq_ofWords`), so at each
place there is one way to go on at most, and the order of the keywords is of no account.

What carries this is a fact about the keywords: a word that stands inside one of them, after its
first, starts none of them (`Keyword.head?_words_ne_of_mem_tail`). So a run of words held back is
given up as a whole when it breaks, and no keyword was missed inside it (`Scan.push_of_breaks`,
`Scan.tokens_foldl_push_run`).
-/

namespace CursorMachine

/-! ### The first words of keywords -/

namespace Keyword

variable {w : String} {ws : List String}

/-- **No keyword starts inside of another**: what comes after a first word is no first word. -/
theorem head?_words_ne_of_mem_tail (k k' : Keyword) (hw : w ∈ k.words.tail) :
    k'.words.head? ≠ some w := by
  have hall : ∀ k ∈ all, ∀ w ∈ k.words.tail, ∀ k' ∈ all, k'.words.head? ≠ some w := by
    decide +kernel
  exact hall k (mem_all k) w hw k' (mem_all k')

/-- A word that starts no keyword begins no phrase. -/
theorem isPhraseStart_cons_of_head?_ne (h : ∀ k : Keyword, k.words.head? ≠ some w) :
    isPhraseStart (w :: ws) = false := by
  rw [Bool.eq_false_iff]
  intro hstart
  obtain ⟨k, -, ws', hk⟩ := isPhraseStart_iff.1 hstart
  refine h k ?_
  rw [← hk]
  rfl

theorem ofWords?_of_head?_ne (h : ∀ k : Keyword, k.words.head? ≠ some w) : ofWords? [w] = none :=
  ofWords?_eq_none_iff.2 fun k hk ↦ h k (by rw [hk, List.head?_cons])

/-- In the beginning of a phrase, what comes after the first word starts no keyword. -/
theorem head?_words_ne_of_isPhraseStart {v : String} (h : isPhraseStart (w :: ws) = true)
    (hv : v ∈ ws) (k : Keyword) : k.words.head? ≠ some v := by
  obtain ⟨k', -, ws', hk'⟩ := isPhraseStart_iff.1 h
  refine head?_words_ne_of_mem_tail k' k ?_
  rw [← hk']
  exact List.mem_append_left ws' hv

end Keyword

/-! ### Runs that break -/

namespace Scan

variable {line : Nat} {w v : String} {r ws : List String}

/-- Words that start no keyword are given up. -/
theorem release_append_of_head?_ne (h : ∀ v ∈ r, ∀ k : Keyword, k.words.head? ≠ some v) :
    release (r ++ ws) = (r ++ (release ws).1, (release ws).2) := by
  induction r with
  | nil => rfl
  | cons v r ih =>
    obtain ⟨hv, hr⟩ := List.forall_mem_cons.1 h
    have hstart : Keyword.isPhraseStart (v :: (r ++ ws)) = false :=
      Keyword.isPhraseStart_cons_of_head?_ne hv
    rw [List.cons_append, release, if_neg (by simp [hstart]), ih hr]
    rfl

theorem release_of_isPhraseStart (h : Keyword.isPhraseStart (w :: ws) = true) :
    release (w :: ws) = ([], w :: ws) := by
  rw [release, if_pos h]

/-- **A run that a word breaks is given up as a whole**: the word is read as if the words before it
had been literals from the first. -/
theorem push_of_breaks (hrun : Keyword.isPhraseStart (w :: r) = true)
    (hbreak : Keyword.isPhraseStart (w :: r ++ [v]) = false) :
    (⟨[], w :: r⟩ : Scan).push line v =
      (start.after ((w :: r).map (Token.literal line)).reverse).push line v := by
  have hinner := fun u (hu : u ∈ r) ↦ Keyword.head?_words_ne_of_isPhraseStart hrun hu
  have hrelease : release (w :: r ++ [v]) =
      (w :: r ++ (release [v]).1, (release [v]).2) := by
    rw [List.cons_append, release, if_neg (by simpa using hbreak),
      release_append_of_head?_ne hinner]
    rfl
  unfold push
  split
  · simp [settle, settleKeyword, start, after]
  · dsimp only [start, after]
    rw [hrelease, List.nil_append]
    dsimp only
    split <;> simp [settle, settleKeyword]

end Scan

/-! ### Words that are literals -/

namespace Token

variable {line : Nat} {w : String} {ws : List String} {ts : List Token}

/-- A word that neither is a keyword nor begins a phrase is a literal, and the scan starts afresh.
-/
theorem ofWords_cons_of_none (hnone : Keyword.ofWords? [w] = none)
    (hstart : Keyword.isPhraseStart [w] = false) :
    Token.ofWords line (w :: ws) = Token.literal line w :: Token.ofWords line ws := by
  rw [Token.ofWords, List.foldl_cons, Scan.start, Scan.push_of_none hnone hstart]
  exact Scan.tokens_foldl_push_after line [Token.literal line w] Scan.start ws

/-- A word that starts no keyword is such a word. -/
theorem ofWords_cons_of_head?_ne (h : ∀ k : Keyword, k.words.head? ≠ some w) :
    Token.ofWords line (w :: ws) = Token.literal line w :: Token.ofWords line ws :=
  ofWords_cons_of_none (Keyword.ofWords?_of_head?_ne h)
    (Keyword.isPhraseStart_cons_of_head?_ne h)

end Token

/-- **A run that no keyword comes of is a run of literals**, and what follows it is scanned afresh.
The run begins a phrase, and goes on with words of which no keyword stands at the place of the run.
-/
theorem Scan.tokens_foldl_push_run {line : Nat} {w : String} {r ws : List String}
    (hrun : Keyword.isPhraseStart (w :: r) = true)
    (hno : ∀ k : Keyword, ¬k.words <+: w :: (r ++ ws)) :
    (ws.foldl (Scan.push line) ⟨[], w :: r⟩).tokens line =
      (w :: r).map (Token.literal line) ++ Token.ofWords line ws := by
  -- Each word makes the run longer, until one breaks it.
  induction ws generalizing r with
  | nil => simp [tokens, settle, Token.ofWords, start]
  | cons v ws ih =>
    rw [List.foldl_cons]
    by_cases hmore : Keyword.isPhraseStart (w :: (r ++ [v])) = true
    · have hv : ∀ k : Keyword, k.words.head? ≠ some v :=
        Keyword.head?_words_ne_of_isPhraseStart hmore (by simp)
      have hwhole : Keyword.ofWords? (w :: (r ++ [v])) = none :=
        Keyword.ofWords?_eq_none_iff.2 fun k hk ↦ hno k ⟨ws, by simp [hk]⟩
      have hpush : (⟨[], w :: r⟩ : Scan).push line v = ⟨[], w :: (r ++ [v])⟩ := by
        simp [push, Keyword.ofWords?_of_head?_ne hv, release_of_isPhraseStart hmore, hwhole, settle]
      rw [hpush, ih hmore (by simpa using hno), Token.ofWords_cons_of_head?_ne hv]
      simp
    · rw [push_of_breaks hrun (by simpa using hmore)]
      have hfresh := tokens_foldl_push_after line ((w :: r).map (Token.literal line)).reverse start
        (v :: ws)
      rw [List.foldl_cons, List.reverse_reverse] at hfresh
      exact hfresh

namespace Token

variable {line : Nat} {w : String} {ws : List String} {ts : List Token}

/-- **Where no keyword stands, the word is a literal**, and the scan goes on with the next word. -/
theorem ofWords_literal (hno : ∀ k : Keyword, ¬k.words <+: w :: ws) :
    Token.ofWords line (w :: ws) = Token.literal line w :: Token.ofWords line ws := by
  have hnone : Keyword.ofWords? [w] = none :=
    Keyword.ofWords?_eq_none_iff.2 fun k hk ↦ hno k ⟨ws, by rw [hk, List.singleton_append]⟩
  by_cases hstart : Keyword.isPhraseStart [w] = true
  · have hpush : Scan.start.push line w = ⟨[], [w]⟩ := by
      simp [Scan.push, hnone, Scan.start, Scan.release_of_isPhraseStart hstart, Scan.settle]
    rw [Token.ofWords, List.foldl_cons, hpush, Scan.tokens_foldl_push_run hstart hno]
    rfl
  · exact ofWords_cons_of_none hnone (by simpa using hstart)

/-! ### The leftmost scan -/

/-- The leftmost scan of the words of a line. From left to right: where the words of a keyword
stand, all of them, they are one token of that keyword, and the scan goes on behind them; where no
keyword stands, the one word is a literal. -/
inductive Leftmost (line : Nat) : List String → List Token → Prop where
  | nil : Leftmost line [] []
  | keyword (k : Keyword) {ws : List String} {ts : List Token} (h : Leftmost line ws ts) :
      Leftmost line (k.words ++ ws) (⟨.keyword k, line, " ".intercalate k.words⟩ :: ts)
  | literal {w : String} {ws : List String} {ts : List Token}
      (hno : ∀ k : Keyword, ¬k.words <+: w :: ws) (h : Leftmost line ws ts) :
      Leftmost line (w :: ws) (⟨.literal, line, w⟩ :: ts)

theorem leftmost_ofWords (line : Nat) (ws : List String) :
    Leftmost line ws (Token.ofWords line ws) := by
  -- A keyword takes several words at once, so the induction is on their number.
  induction hn : ws.length using Nat.strong_induction_on generalizing ws with
  | _ n ih =>
    rcases ws with - | ⟨w, ws⟩
    · exact .nil
    · by_cases hk : ∃ k : Keyword, k.words <+: w :: ws
      · obtain ⟨k, rest, hsplit⟩ := hk
        have hpos := List.length_pos_of_ne_nil k.words_ne_nil
        rw [← hsplit, List.length_append] at hn
        rw [← hsplit, ofWords_keyword]
        exact .keyword k (ih rest.length (by omega) rest rfl)
      · rw [not_exists] at hk
        rw [List.length_cons] at hn
        rw [ofWords_literal hk]
        exact .literal hk (ih ws.length (by omega) ws rfl)

/-- **The tokens of a line are those of its leftmost scan**, and the leftmost scan has no others. -/
theorem leftmost_iff_eq_ofWords (line : Nat) (ws : List String) (ts : List Token) :
    Leftmost line ws ts ↔ ts = Token.ofWords line ws := by
  constructor
  · intro h
    induction h with
    | nil => rfl
    | keyword k _ ih => rw [ih, ofWords_keyword, Token.keyword, Keyword.phrase]
    | literal hno _ ih => rw [ih, ofWords_literal hno, Token.literal]
  · rintro rfl
    exact leftmost_ofWords line ws

/-- A phrase that breaks off, a phrase that starts anew inside of it, and a keyword of one word
among the words of another. -/
example : Token.ofWords 1 ["plus", "plus", "memory", "pointer", "make", "print", "function"] =
    [literal 1 "plus", keyword 1 (.moveBy .forward), literal 1 "make", keyword 1 .print,
      literal 1 "function"] := by
  decide +kernel

end Token

end CursorMachine
