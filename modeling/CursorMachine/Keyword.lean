/-!
# Keywords

Every instruction is written with a keyword, and every keyword is a phrase of one to four words.
The keywords fall into families that differ in one respect only: relative moves differ in their
*direction*, comparisons in their *relation*, and updates of a cell in their *operation*. The family
is a constructor here and the respect is its argument, so a rule about a family is stated once.

* `Keyword.words` is the spelling, word by word; `Keyword.phrase` joins it by single spaces.
* `Keyword.ofWords?` reads a spelling back, and `ofWords?_words` says that it does: no two keywords
  are spelled alike.
* `Kind` is what a token can be: a keyword, a literal word, or a reserved kind that no word has.
-/

namespace CursorMachine

/-- The two ways along the memory or along the program. -/
inductive Direction where
  | forward
  | backward
  deriving DecidableEq, Repr

/-- How two cells are compared. -/
inductive Relation where
  | greater
  | less
  | equal
  | unequal
  deriving DecidableEq, Repr

/-- How a cell is combined with a constant. -/
inductive Update where
  | add
  | subtract
  | multiply
  deriving DecidableEq, Repr

/-- What an instruction is about. -/
inductive Keyword where
  /-- Move the cell cursor by an amount. -/
  | moveBy (d : Direction)
  /-- Move the cell cursor to an address. -/
  | moveTo
  /-- Copy the cell under the cursor to an address. -/
  | copyTo
  /-- Continue some lines further on or further back. -/
  | jumpBy (d : Direction)
  /-- Continue at a line. -/
  | jumpTo
  /-- Print the cell under the cursor. -/
  | print
  /-- Open the body of a function. -/
  | function
  /-- Close the body of a function. -/
  | close
  /-- Continue in the body of a function. -/
  | call
  /-- Stop. -/
  | exit
  /-- Skip a line unless two cells are related. -/
  | compare (r : Relation)
  /-- Put a value into the cell under the cursor. -/
  | set
  /-- Combine the cell under the cursor with an amount. -/
  | update (u : Update)
  deriving DecidableEq, Repr

namespace Keyword

/-- All keywords, in the order in which they are documented. -/
def all : List Keyword :=
  [.moveBy .forward, .moveBy .backward, .moveTo, .copyTo, .jumpBy .forward, .jumpBy .backward,
    .jumpTo, .print, .function, .close, .call, .exit, .compare .greater, .compare .less,
    .compare .equal, .compare .unequal, .set, .update .add, .update .subtract, .update .multiply]

/-- The list of keywords is complete. -/
theorem mem_all (k : Keyword) : k ∈ all := by
  rcases k with (_ | _) | _ | _ | (_ | _) | _ | _ | _ | _ | _ | _ | (_ | _ | _ | _) | _ |
    (_ | _ | _) <;> decide

/-- The spelling of a keyword, word by word. -/
def words : Keyword → List String
  | .moveBy .forward => ["plus", "memory", "pointer"]
  | .moveBy .backward => ["min", "memory", "pointer"]
  | .moveTo => ["move", "memory", "pointer", "to"]
  | .copyTo => ["copy", "value", "to"]
  | .jumpBy .forward => ["plus", "instruction", "pointer"]
  | .jumpBy .backward => ["min", "instruction", "pointer"]
  | .jumpTo => ["move", "instruction", "pointer", "to"]
  | .print => ["print"]
  | .function => ["make", "function"]
  | .close => ["close"]
  | .call => ["run", "function"]
  | .exit => ["exit"]
  | .compare .greater => ["greater", "compare", "between"]
  | .compare .less => ["less", "compare", "between"]
  | .compare .equal => ["equal", "compare", "between"]
  | .compare .unequal => ["unequal", "compare", "between"]
  | .set => ["set", "value", "to"]
  | .update .add => ["increment", "pointer", "by"]
  | .update .subtract => ["decrement", "pointer", "by"]
  | .update .multiply => ["multiply", "pointer", "by"]

/-- The spelling of a keyword as one text. -/
def phrase (k : Keyword) : String :=
  " ".intercalate k.words

/-- The keyword that a list of words spells in full. -/
def ofWords? (ws : List String) : Option Keyword :=
  all.find? fun k ↦ k.words == ws

/-- The words begin the spelling of some keyword of several words. The empty list begins each. -/
def isPhraseStart (ws : List String) : Bool :=
  all.any fun k ↦ 1 < k.words.length && ws.isPrefixOf k.words

/-- A spelling reads back as its keyword. -/
@[simp] theorem ofWords?_words (k : Keyword) : ofWords? k.words = some k := by
  have hall : ∀ k ∈ all, ofWords? k.words = some k := by decide
  exact hall k (mem_all k)

/-- What reads as a keyword is its spelling. -/
theorem words_of_ofWords? {ws : List String} {k : Keyword} (h : ofWords? ws = some k) :
    k.words = ws := by
  simpa using List.find?_some h

theorem ofWords?_eq_some_iff {ws : List String} {k : Keyword} :
    ofWords? ws = some k ↔ k.words = ws :=
  ⟨words_of_ofWords?, fun h ↦ h ▸ ofWords?_words k⟩

theorem ofWords?_eq_none_iff {ws : List String} :
    ofWords? ws = none ↔ ∀ k : Keyword, k.words ≠ ws := by
  rw [Option.eq_none_iff_forall_ne_some]
  exact forall_congr' fun _ ↦ not_congr ofWords?_eq_some_iff

theorem isPhraseStart_iff {ws : List String} :
    isPhraseStart ws = true ↔ ∃ k : Keyword, 1 < k.words.length ∧ ws <+: k.words := by
  simp only [isPhraseStart, List.any_eq_true, Bool.and_eq_true, decide_eq_true_eq,
    List.isPrefixOf_iff_prefix]
  constructor
  · rintro ⟨k, -, h⟩
    exact ⟨k, h⟩
  · rintro ⟨k, h⟩
    exact ⟨k, mem_all k, h⟩

end Keyword

/-- What a token can be. -/
inductive Kind where
  /-- The full phrase of a keyword. -/
  | keyword (k : Keyword)
  /-- A word that belongs to no keyword: a number or a name. -/
  | literal
  /-- A kind without a spelling, which no text produces. -/
  | reserved
  deriving DecidableEq, Repr

/-- The keyword of a kind, if it is one. -/
def Kind.keyword? : Kind → Option Keyword
  | .keyword k => some k
  | .literal => none
  | .reserved => none

end CursorMachine
