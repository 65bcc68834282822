import CursorMachine.Keyword
import CursorMachine.Text.Blank

/-!
# Tokens

A text is read into *rows* of tokens, one row for each *logical line*: a line that has a word and
whose first word does not start with `commentMark`. Logical lines are numbered from one, so a line's
number counts neither blank lines nor comments.

Within a line, words that spell a keyword become one token. The scan reads one word at a time and
holds back a *run*: the latest words, as long as they begin the phrase of some keyword.

* A word that is a keyword by itself ends the run, whose words are then literals.
* Any other word extends the run. Words are given up as literals from the run's old end until what
  remains begins a phrase again; a run that spells a whole phrase becomes a token at once.

`Scan.push` consumes one word, so a row of `n` words takes exactly `n` of them; `Scan.tokens` ends
the scan. No word is lost or reordered: see `words_push`.
-/

namespace CursorMachine

/-- A word or a whole keyword phrase, with the number of the logical line it stands on. -/
structure Token where
  kind : Kind
  line : Nat
  content : String
  deriving DecidableEq, Repr

/-- A line whose first word starts with this character is a comment. -/
def commentMark : Char := '#'

namespace Token

/-- The token of a word that belongs to no keyword. -/
def literal (line : Nat) (word : String) : Token :=
  ⟨.literal, line, word⟩

/-- The token of a keyword, with its phrase as content. -/
def keyword (line : Nat) (k : Keyword) : Token :=
  ⟨.keyword k, line, k.phrase⟩

end Token

/-! ### Scanning one line -/

/-- The state of a scan between two words. -/
structure Scan where
  /-- The tokens that no later word can change, latest first. -/
  settled : List Token
  /-- The words held back, oldest first. -/
  run : List String
  deriving DecidableEq, Repr

namespace Scan

/-- Before the first word. -/
def start : Scan := ⟨[], []⟩

/-- Gives up words from the old end until the rest begins a phrase: the words given up and the rest.
Nothing at all begins a phrase, so this stops. -/
def release : List String → List String × List String
  | [] => ([], [])
  | w :: ws =>
    if Keyword.isPhraseStart (w :: ws) then ([], w :: ws)
    else (w :: (release ws).1, (release ws).2)

/-- Settles words as literals. -/
def settle (line : Nat) (s : Scan) (words : List String) : Scan :=
  { s with settled := (words.map (Token.literal line)).reverse ++ s.settled }

/-- Settles a keyword, which also empties the run. -/
def settleKeyword (line : Nat) (s : Scan) (k : Keyword) : Scan :=
  ⟨Token.keyword line k :: s.settled, []⟩

/-- Reads one word. -/
def push (line : Nat) (s : Scan) (word : String) : Scan :=
  match Keyword.ofWords? [word] with
  | some k => (s.settle line s.run).settleKeyword line k
  | none =>
    let (released, run) := release (s.run ++ [word])
    let s := s.settle line released
    match Keyword.ofWords? run with
    | some k => s.settleKeyword line k
    | none => { s with run }

/-- Ends the scan: the words still held back are literals. -/
def tokens (line : Nat) (s : Scan) : List Token :=
  (s.settle line s.run).settled.reverse

/-- The two parts of `release` make up the words. -/
theorem release_append (ws : List String) : (release ws).1 ++ (release ws).2 = ws := by
  induction ws with
  | nil => rfl
  | cons w ws ih =>
    rw [release]
    split
    · rfl
    · rw [List.cons_append, ih]

/-- What `release` keeps begins a phrase. -/
theorem isPhraseStart_release (ws : List String) :
    Keyword.isPhraseStart (release ws).2 = true := by
  induction ws with
  | nil => decide
  | cons w ws ih =>
    rw [release]
    split
    · assumption
    · exact ih

end Scan

/-- The words that a token stands for. -/
def Token.words (t : Token) : List String :=
  match t.kind with
  | .keyword k => k.words
  | _ => [t.content]

/-- The words read so far: those of the settled tokens, then those held back. -/
def Scan.words (s : Scan) : List String :=
  s.settled.reverse.flatMap Token.words ++ s.run

namespace Scan

theorem words_settle (line : Nat) (s : Scan) (ws : List String) :
    (s.settle line ws).settled.reverse.flatMap Token.words =
      s.settled.reverse.flatMap Token.words ++ ws := by
  have h : ws.flatMap (fun w ↦ (Token.literal line w).words) = ws := by
    induction ws with
    | nil => rfl
    | cons w ws ih => rw [List.flatMap_cons, ih]; rfl
  simp [settle, List.flatMap_map, h]

theorem words_settleKeyword (line : Nat) (s : Scan) (k : Keyword) :
    (s.settleKeyword line k).words = s.settled.reverse.flatMap Token.words ++ k.words := by
  simp [settleKeyword, words, Token.keyword, Token.words]

/-- Reading a word adds that word at the end: none is lost, doubled or moved. -/
theorem words_push (line : Nat) (s : Scan) (word : String) :
    (s.push line word).words = s.words ++ [word] := by
  unfold push
  split
  next k hk =>
    rw [words_settleKeyword, words_settle, Keyword.words_of_ofWords? hk, words]
  next =>
    have hr := release_append (s.run ++ [word])
    dsimp only
    split
    next k hk =>
      rw [words_settleKeyword, words_settle, Keyword.words_of_ofWords? hk, List.append_assoc, hr,
        words, List.append_assoc]
    next => rw [words, words_settle, List.append_assoc, hr, words, List.append_assoc]

end Scan

/-- The tokens of one line of words. -/
def Token.ofWords (line : Nat) (words : List String) : List Token :=
  (words.foldl (Scan.push line) Scan.start).tokens line

/-! ### Scanning a text -/

/-- The words make up a logical line: there is a first one, and it does not start a comment. -/
def isLogical : List (List Char) → Bool
  | [] => false
  | first :: _ => first.head? != some commentMark

/-- In words: some word comes first, and it does not start with `#`. -/
theorem isLogical_iff {ws : List (List Char)} :
    isLogical ws = true ↔ ∃ first rest, ws = first :: rest ∧ first.head? ≠ some '#' := by
  rcases ws with - | ⟨first, rest⟩
  · simp [isLogical]
  · simp [isLogical, commentMark]

/-- The words of each logical line of a text, in order. -/
def logicalLines (text : String) : List (List String) :=
  (((Text.lines text.toList).map Text.words).filter isLogical).map (·.map String.ofList)

/-- The rows of a text, one for each logical line, numbered from one. -/
def Token.rows (text : String) : List (List Token) :=
  (logicalLines text).mapIdx fun i ws ↦ Token.ofWords (i + 1) ws

end CursorMachine
