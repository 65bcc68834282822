import CursorMachine.Proofs.Running.Effects

/-!
# Words

The numbers that a step computes with are integers, and no processor has those. This module carries
a step out operation by operation, over a `Machine.Arithmetic` that says what becomes of each sum,
each difference and each cast, given the number that it comes to over the integers. There are three:

* `unbounded`, where every operation comes to just that number;
* `words`, where an operation has no value when the number does not fit 64 bits, except for the sums
  that stay at the largest word;
* `strict`, where these have no value either.

On every session that a prepared machine leads to, a step over words is `Session.step`, and so is a
step over the integers but for the address that an error reports (`Session.stepIn_of_reachable`).

Most operations have their number over any arithmetic that is `Exact`, since operands are bounded by
what a literal may denote and all else by the sizes of the program and of memory
(`Machine.Fits`). The only ones that leave the words are those of a move or a jump that
`Machine.Overshoots`: its attempt is refused over any arithmetic, so it is settled on its own.
-/

namespace CursorMachine

theorem saturate_le_farthest (n : Int) : saturate n ≤ farthest := min_le_right _ _

/-- The error with the address or the line that it reports brought back to `farthest`. -/
def Error.clamped : Error → Error
  | .memoryOutOfRange line address size => .memoryOutOfRange line (saturate address) size
  | .instructionOutOfRange target last => .instructionOutOfRange (saturate target) last
  | e => e

/-- The attempt with the error that it carries clamped. -/
def Attempt.clamped {size : Nat} (a : Attempt size) : Attempt size :=
  { a with error? := a.error?.map Error.clamped }

namespace Machine

/-! ### Arithmetic -/

/-- What an operation comes to, given the number that it comes to over the integers; `none` when it
has no value. -/
structure Arithmetic where
  /-- Sums and differences of signed words, and casts to them. -/
  signed : Int → Option Int
  /-- Sums and differences of unsigned words, and casts to them. -/
  unsigned : Int → Option Int
  /-- Sums of signed words that stay within the words. -/
  sum : Int → Option Int

namespace Arithmetic

/-- The integers. -/
def unbounded : Arithmetic := ⟨some, some, some⟩

/-- Words of 64 bits. -/
def words : Arithmetic where
  signed n := if -2 ^ 63 ≤ n ∧ n < 2 ^ 63 then some n else none
  unsigned n := if 0 ≤ n ∧ n < 2 ^ 64 then some n else none
  sum n := some (max (-2 ^ 63) (min n (2 ^ 63 - 1)))

/-- Words of 64 bits, where no sum stays within them when it leads beyond. -/
def strict : Arithmetic := { words with sum := words.signed }

/-- Every operation comes to the number that it comes to over the integers, when that fits. -/
structure Exact (A : Arithmetic) : Prop where
  signed : ∀ {n : Int}, -2 ^ 63 ≤ n → n < 2 ^ 63 → A.signed n = some n
  unsigned : ∀ {n : Int}, 0 ≤ n → n < 2 ^ 64 → A.unsigned n = some n
  sum : ∀ {n : Int}, -2 ^ 63 ≤ n → n < 2 ^ 63 → A.sum n = some n

theorem exact_unbounded : unbounded.Exact := ⟨fun _ _ ↦ rfl, fun _ _ ↦ rfl, fun _ _ ↦ rfl⟩

theorem exact_words : words.Exact where
  signed hlow hhigh := if_pos ⟨hlow, hhigh⟩
  unsigned hlow hhigh := if_pos ⟨hlow, hhigh⟩
  sum hlow hhigh := by
    show some _ = some _
    congr
    omega

theorem exact_strict : strict.Exact :=
  ⟨exact_words.signed, exact_words.unsigned, exact_words.signed⟩

/-- Over words, sums are those that a step computes with. -/
theorem sum_words {n : Int} (h : -2 ^ 63 ≤ n) : words.sum n = some (saturate n) := by
  rw [words, saturate, farthest, Option.some.injEq]
  omega

theorem eq_of_sum_strict {n a : Int} (h : strict.sum n = some a) : a = n := by
  obtain ⟨-, ha⟩ := Option.ite_none_right_eq_some.1 h
  exact (Option.some.inj ha).symm

theorem sum_strict_of_lt {n : Int} (h : farthest < n) : strict.sum n = none := by
  unfold farthest at h
  exact if_neg (by omega)

end Arithmetic

/-- What is computed over an arithmetic: it may have no value, or be refused. -/
abbrev Computation := ExceptT Error Option

theorem liftM_some_bind {α β : Type} (a : α) (f : α → Computation β) :
    ((liftM (some a) : Computation α) >>= f) = f a := rfl

namespace Arithmetic.Exact

variable {A : Arithmetic} (hA : A.Exact) {α : Type} {n : Int} (f : Int → Computation α)

include hA

theorem signed_bind (hlow : -2 ^ 63 ≤ n) (hhigh : n < 2 ^ 63) :
    ((liftM (A.signed n) : Computation Int) >>= f) = f n := by
  rw [hA.signed hlow hhigh, liftM_some_bind]

theorem unsigned_bind (hlow : 0 ≤ n) (hhigh : n < 2 ^ 64) :
    ((liftM (A.unsigned n) : Computation Int) >>= f) = f n := by
  rw [hA.unsigned hlow hhigh, liftM_some_bind]

theorem sum_bind (hlow : -2 ^ 63 ≤ n) (hhigh : n < 2 ^ 63) :
    ((liftM (A.sum n) : Computation Int) >>= f) = f n := by
  rw [hA.sum hlow hhigh, liftM_some_bind]

end Arithmetic.Exact

variable {size : Nat}

/-! ### A step, operation by operation -/

/-- Judges an address. A negative number is no unsigned word. -/
def addressIn (A : Arithmetic) (line : Nat) (address : Int) (size : Nat) :
    Computation (Fin size) := do
  if 0 ≤ address then checkAddress line (← A.unsigned address) size
  else throw (.memoryOutOfRange line address size)

/-- The effect of a statement, with the place to continue at. -/
def effectIn (A : Arithmetic) (s : Statement) (m : Machine size) :
    Computation (Machine size × Int) := do
  let index ← A.signed (← A.unsigned (s.line - 1))
  let next ← A.signed (index + 1)
  match s.instruction with
  | .moveBy .forward n =>
    let address ← A.sum ((← A.signed m.cursor.val) + (← A.signed n))
    return ({ m with cursor := ← addressIn A s.line address size }, next)
  | .moveBy .backward n =>
    let address ← A.signed ((← A.signed m.cursor.val) - (← A.signed n))
    return ({ m with cursor := ← addressIn A s.line address size }, next)
  | .moveTo a => return ({ m with cursor := ← addressIn A s.line (← A.signed a) size }, next)
  | .copyTo a =>
    let target ← addressIn A s.line (← A.signed a) size
    return ({ m with memory := m.memory.set target m.current target.isLt }, next)
  | .jumpBy .forward n => return (m, ← A.sum (index + (← A.signed n)))
  | .jumpBy .backward n => return (m, ← A.signed (index - (← A.signed n)))
  | .jumpTo line => return (m, ← A.signed ((← A.signed line) - 1))
  | .print => return ({ m with printed := m.printed.push m.current }, next)
  | .function _ | .close | .exit => return (m, next)
  | .call name =>
    match m.opening? name with
    | some line => return (m, ← A.signed line)
    | none => throw (.functionNotFound s.line name)
  | .compare r a b =>
    let a ← addressIn A s.line (← A.signed a) size
    let b ← addressIn A s.line (← A.signed b) size
    if r.holds (m.memory.get a) (m.memory.get b) then return (m, next)
    else return (m, ← A.signed (index + 2))
  | .set v => return (m.write v, next)
  | .update u v => return (m.write (u.apply m.current v), next)

/-- The place, counted from zero, of the line to continue at. A line before the first one is no
unsigned word, and is not compared with the last one. -/
def landingIn (A : Arithmetic) (length : Nat) (next : Int) : Computation Int := do
  let target ← A.sum (next + 1)
  if 1 ≤ target then
    let line ← A.unsigned target
    if line ≤ (← A.unsigned (length + 1)) then A.unsigned (line - 1)
    else throw (.instructionOutOfRange target length)
  else throw (.instructionOutOfRange target length)

/-- Carries out a statement of a program of `length` lines. -/
def attemptIn (A : Arithmetic) (length : Nat) (s : Statement) (m : Machine size) :
    Option (Attempt size) := do
  match ← (m.effectIn A s).run with
  | .error e => return ⟨m, some e⟩
  | .ok (m, next) =>
    match ← (landingIn A length next).run with
    | .error e => return ⟨m, some e⟩
    | .ok place => return ⟨{ m with position := place.toNat }, none⟩

/-- Machine and statement stay away from the ends of the words: the machine has few cells, and the
lines of the statement and of all functions are small. -/
structure Fits (m : Machine size) (s : Statement) : Prop where
  size_lt : size < 2 ^ 62
  line_pos : 1 ≤ s.line
  line_lt : s.line < 2 ^ 62
  inRange : s.instruction.InRange
  opening_lt : ∀ {name : String} {line : Nat}, m.opening? name = some line → line < 2 ^ 62

/-- The statement moves the cursor or jumps to an address or a line beyond `farthest`. -/
def Overshoots (m : Machine size) (s : Statement) : Prop :=
  match s.instruction with
  | .moveBy .forward n => farthest < m.cursor.val + n
  | .jumpBy .forward n => farthest < s.line + n
  | _ => False

variable {A : Arithmetic} {m : Machine size} {s : Statement}

/-- The place of a statement that fits is one below its line. -/
theorem Fits.sub_one_eq (h : m.Fits s) : (s.line : Int) - 1 = s.index := by
  have hpos := h.line_pos
  rw [Statement.index]
  omega

theorem addressIn_eq (hA : A.Exact) (line : Nat) {address : Int} (hhigh : address < 2 ^ 64) :
    addressIn A line address size = liftM (checkAddress line address size) := by
  unfold addressIn
  split
  next hpos => rw [hA.unsigned_bind _ hpos hhigh]
  next hneg =>
    have herror : checkAddress line address size = .error (.memoryOutOfRange line address size) :=
      checkAddress_eq_error_iff.2 ⟨fun h ↦ hneg h.1, rfl⟩
    rw [herror]
    rfl

/-- **Without overshooting, the effect is computed exactly**, whatever the arithmetic. -/
theorem effectIn_eq (hA : A.Exact) (h : m.Fits s) (hm : ¬m.Overshoots s) :
    (m.effectIn A s).run = some (m.effect s) := by
  have hindex := h.sub_one_eq
  obtain ⟨hsize, hpos, hline, hrange, hopening⟩ := h
  have hcursor := m.cursor.isLt
  have hfarthest : farthest = 2 ^ 63 - 1 := rfl
  unfold effectIn effect
  simp (disch := omega) only [hA.unsigned_bind, hA.signed_bind, hindex]
  rcases hi : s.instruction with
    ⟨_ | _, n⟩ | a | a | ⟨_ | _, n⟩ | line | - | name | - | name | - | ⟨r, a, b⟩ | v | ⟨u, v⟩ <;>
    simp only [hi, Instruction.InRange, Text.Numeral.maxMagnitude, Overshoots] at hrange hm ⊢
  case moveBy.forward =>
    simp (disch := omega) only [hA.signed_bind, hA.sum_bind, addressIn_eq hA, Direction.travel,
      saturate_of_le]
    rcases checkAddress s.line (m.cursor.val + n) size with e | c <;> rfl
  case moveBy.backward =>
    simp (disch := omega) only [hA.signed_bind, addressIn_eq hA, Direction.travel]
    rcases checkAddress s.line (m.cursor.val - n) size with e | c <;> rfl
  case moveTo | copyTo =>
    simp (disch := omega) only [hA.signed_bind, addressIn_eq hA]
    rcases checkAddress s.line a size with e | c <;> rfl
  case jumpBy.forward =>
    simp (disch := omega) only [hA.signed_bind, hA.sum_bind, Direction.travel, saturate_of_le]
    rfl
  case jumpBy.backward =>
    simp (disch := omega) only [hA.signed_bind, Direction.travel]
    rfl
  case jumpTo =>
    simp (disch := omega) only [hA.signed_bind]
    rfl
  case call =>
    rcases hopen : m.opening? name with - | line
    · rfl
    · have hlt := hopening hopen
      simp (disch := omega) only [hA.signed_bind]
      rfl
  case compare =>
    simp (disch := omega) only [hA.signed_bind, addressIn_eq hA]
    rcases checkAddress s.line a size with e | c
    · rfl
    · rcases checkAddress s.line b size with e | c'
      · rfl
      · show ExceptT.run (if r.holds m.memory[c] m.memory[c'] then _ else _) =
          some (.ok (m, if _ then _ else _))
        split <;> rfl
  all_goals rfl

/-- Where an effect continues fits in a word, and so does the line of it when nothing overshoots. -/
theorem next_of_effect (h : m.Fits s) (hm : ¬m.Overshoots s) {m' : Machine size} {next : Int}
    (heffect : m.effect s = .ok (m', next)) : -2 ^ 63 ≤ next ∧ next + 1 ≤ farthest := by
  have hindex := h.sub_one_eq
  obtain ⟨-, hpos, hline, hrange, hopening⟩ := h
  have hfarthest : farthest = 2 ^ 63 - 1 := rfl
  unfold effect at heffect
  rcases hi : s.instruction with
    ⟨_ | _, n⟩ | a | a | ⟨_ | _, n⟩ | line | - | name | - | name | - | ⟨r, a, b⟩ | v | ⟨u, v⟩ <;>
    simp only [hi, Instruction.InRange, Text.Numeral.maxMagnitude, Overshoots] at hrange hm heffect
  case moveBy.forward | moveBy.backward | moveTo | copyTo =>
    obtain ⟨c, -, heffect⟩ := bind_eq_ok_iff.1 heffect
    cases heffect
    omega
  case jumpBy.forward =>
    cases heffect
    rw [Direction.travel, saturate_of_le (by omega)]
    omega
  case jumpBy.backward =>
    cases heffect
    rw [Direction.travel]
    omega
  case call =>
    split at heffect
    next line hopen =>
      have hlt := hopening hopen
      cases heffect
      omega
    next => cases heffect
  case compare =>
    obtain ⟨c, -, heffect⟩ := bind_eq_ok_iff.1 heffect
    obtain ⟨c', -, heffect⟩ := bind_eq_ok_iff.1 heffect
    cases heffect
    split <;> omega
  all_goals
    cases heffect
    omega

theorem landingIn_eq (hA : A.Exact) {length : Nat} {next : Int} (hlength : length < 2 ^ 62)
    (hlow : -2 ^ 63 ≤ next) (hhigh : next + 1 ≤ farthest) :
    (landingIn A length next).run =
      some ((checkTarget (saturate (next + 1)) length).map
        fun line ↦ ((line - 1 : Nat) : Int)) := by
  have hfarthest : farthest = 2 ^ 63 - 1 := rfl
  rw [landingIn, saturate_of_le hhigh]
  simp (disch := omega) only [hA.sum_bind]
  by_cases hpos : 1 ≤ next + 1
  · by_cases hle : next + 1 ≤ length + 1
    · have hline : checkTarget (next + 1) length = .ok (next + 1).toNat :=
        checkTarget_eq_ok_iff.2 (by omega)
      have hplace : A.unsigned (next + 1 - 1) = some (((next + 1).toNat - 1 : Nat) : Int) := by
        rw [hA.unsigned (by omega) (by omega), Option.some.injEq]
        omega
      simp (disch := omega) only [hA.unsigned_bind, if_pos hpos, if_pos hle, hplace, hline]
      rfl
    · have herror : checkTarget (next + 1) length =
          .error (.instructionOutOfRange (next + 1) length) :=
        checkTarget_eq_error_iff.2 ⟨fun h ↦ hle h.2, rfl⟩
      simp (disch := omega) only [hA.unsigned_bind, if_pos hpos, if_neg hle, herror]
      rfl
  · have herror : checkTarget (next + 1) length =
        .error (.instructionOutOfRange (next + 1) length) :=
      checkTarget_eq_error_iff.2 ⟨fun h ↦ hpos h.1, rfl⟩
    rw [if_neg hpos, herror]
    rfl

/-- **Without overshooting, the attempt is computed exactly**, whatever the arithmetic. -/
theorem attemptIn_eq (hA : A.Exact) {length : Nat} (hlength : length < 2 ^ 62) (h : m.Fits s)
    (hm : ¬m.Overshoots s) : m.attemptIn A length s = some (m.attempt length s) := by
  rw [attemptIn, effectIn_eq hA h hm, Option.bind_eq_bind, Option.bind_some, attempt]
  rcases hnext : m.effect s with e | ⟨m', next⟩
  · rfl
  · have hbounds := next_of_effect h hm hnext
    dsimp only
    rw [landingIn_eq hA hlength hbounds.1 hbounds.2]
    rcases checkTarget (saturate (next + 1)) length with e | line <;> rfl

/-! ### Overshooting -/

/-- A move beyond memory is refused for the address that its sum comes to, if it comes to any. -/
theorem attemptIn_moveBy_forward (hA : A.Exact) (h : m.Fits s) {n : Nat}
    (hi : s.instruction = .moveBy .forward n)
    (hfar : ∀ a, A.sum (m.cursor.val + n) = some a → (size : Int) ≤ a ∧ A.unsigned a = some a)
    (length : Nat) :
    m.attemptIn A length s = (A.sum (m.cursor.val + n)).map fun a ↦
      ⟨m, some (.memoryOutOfRange s.line a size)⟩ := by
  obtain ⟨hsize, hpos, hline, hrange, -⟩ := h
  have hcursor := m.cursor.isLt
  simp only [hi, Instruction.InRange, Text.Numeral.maxMagnitude] at hrange
  unfold attemptIn effectIn
  simp (disch := omega) only [hA.unsigned_bind, hA.signed_bind, hi]
  rcases hsum : A.sum (m.cursor.val + n) with - | a
  · rfl
  · obtain ⟨hle, hunsigned⟩ := hfar a hsum
    have herror : checkAddress s.line a size = .error (.memoryOutOfRange s.line a size) :=
      checkAddress_eq_error_iff.2 ⟨by omega, rfl⟩
    have hpos : 0 ≤ a := by omega
    simp only [addressIn, liftM_some_bind, if_pos hpos, hunsigned, herror]
    rfl

/-- A jump beyond the program is refused for the line that its sums come to, if they come to any. -/
theorem attemptIn_jumpBy_forward (hA : A.Exact) (h : m.Fits s) {n : Nat}
    (hi : s.instruction = .jumpBy .forward n) {length : Nat} (hlength : length < 2 ^ 62)
    (hfar : ∀ next target, A.sum (s.index + n) = some next → A.sum (next + 1) = some target →
      (length : Int) + 1 < target ∧ A.unsigned target = some target) :
    m.attemptIn A length s = (A.sum (s.index + n)).bind fun next ↦ (A.sum (next + 1)).map
      fun target ↦ ⟨m, some (.instructionOutOfRange target length)⟩ := by
  have hindex := h.sub_one_eq
  obtain ⟨-, hpos, hline, hrange, -⟩ := h
  simp only [hi, Instruction.InRange, Text.Numeral.maxMagnitude] at hrange
  unfold attemptIn effectIn
  simp (disch := omega) only [hA.unsigned_bind, hA.signed_bind, hi, hindex]
  rcases hnext : A.sum (s.index + n) with - | next
  · rfl
  · show Option.bind (landingIn A length next).run _ = _
    rw [landingIn]
    rcases htarget : A.sum (next + 1) with - | target
    · simp only [Option.bind_some, htarget]
      rfl
    · obtain ⟨hlt, hunsigned⟩ := hfar next target hnext htarget
      have hlast : A.unsigned (length + 1) = some ((length : Int) + 1) :=
        hA.unsigned (by omega) (by omega)
      rw [liftM_some_bind, if_pos (by omega), hunsigned, liftM_some_bind, hlast, liftM_some_bind,
        if_neg (by omega), Option.bind_some, htarget]
      rfl

/-- What an attempt comes to that is refused for a place beyond `farthest`: over the integers the
place is reported as it is, over words as `farthest`, and when no sum may stay there it has no
value. -/
structure RefusedBeyond (m : Machine size) (length : Nat) (s : Statement) (report : Int → Error)
    (target : Int) : Prop where
  lt : farthest < target
  clamped_eq : (report target).clamped = report farthest
  attempt_eq : m.attempt length s = ⟨m, some (report farthest)⟩
  unbounded_eq : m.attemptIn .unbounded length s = some ⟨m, some (report target)⟩
  words_eq : m.attemptIn .words length s = some ⟨m, some (report farthest)⟩
  strict_eq : m.attemptIn .strict length s = none

theorem refusedBeyond_moveBy (h : m.Fits s) {n : Nat} (hi : s.instruction = .moveBy .forward n)
    (hfar : farthest < m.cursor.val + n) (length : Nat) :
    m.RefusedBeyond length s (.memoryOutOfRange s.line · size) (m.cursor.val + n) := by
  have hfarthest : farthest = 2 ^ 63 - 1 := rfl
  have hsize := h.size_lt
  have hsaturate : saturate (m.cursor.val + n) = farthest := min_eq_right (le_of_lt hfar)
  have hwords : Arithmetic.words.sum (m.cursor.val + n) = some farthest := by
    rw [Arithmetic.sum_words (by omega), hsaturate]
  have hstrict : Arithmetic.strict.sum (m.cursor.val + n) = none := Arithmetic.sum_strict_of_lt hfar
  refine ⟨hfar, congrArg (Error.memoryOutOfRange s.line · size) hsaturate, ?_, ?_, ?_, ?_⟩
  · refine attempt_of_effect_error ?_
    have herror : checkAddress s.line farthest size =
        .error (.memoryOutOfRange s.line farthest size) :=
      checkAddress_eq_error_iff.2 ⟨by omega, rfl⟩
    simp only [effect, hi, Direction.travel, hsaturate, herror]
    rfl
  · refine attemptIn_moveBy_forward Arithmetic.exact_unbounded h hi ?_ length
    rintro a ⟨⟩
    exact ⟨by omega, rfl⟩
  · rw [attemptIn_moveBy_forward Arithmetic.exact_words h hi, hwords]
    · rfl
    · rw [hwords]
      rintro a ⟨⟩
      exact ⟨by omega, rfl⟩
  · rw [attemptIn_moveBy_forward Arithmetic.exact_strict h hi, hstrict]
    · rfl
    · rw [hstrict]
      nofun

theorem refusedBeyond_jumpBy (h : m.Fits s) {n : Nat} (hi : s.instruction = .jumpBy .forward n)
    (hfar : farthest < s.line + n) {length : Nat} (hlength : length < 2 ^ 62) :
    m.RefusedBeyond length s (.instructionOutOfRange · length) (s.line + n) := by
  have hfarthest : farthest = 2 ^ 63 - 1 := rfl
  have hindex : (s.index : Int) + 1 = s.line := by
    rw [← h.sub_one_eq, Int.sub_add_cancel]
  have hnext : saturate (s.index + n) = farthest := min_eq_right (by omega)
  have htarget : saturate (farthest + 1) = farthest := rfl
  have hwords : Arithmetic.words.sum (s.index + n) = some farthest := by
    rw [Arithmetic.sum_words (by omega), hnext]
  have hwords' : Arithmetic.words.sum (farthest + 1) = some farthest := rfl
  refine ⟨hfar, congrArg (Error.instructionOutOfRange · length) (min_eq_right (le_of_lt hfar)),
    ?_, ?_, ?_, ?_⟩
  · have heffect : m.effect s = .ok (m, farthest) := by
      simp only [effect, hi, Direction.travel, hnext]
    refine attempt_of_landing_error heffect ?_
    rw [htarget]
    exact checkTarget_eq_error_iff.2 ⟨by omega, rfl⟩
  · rw [attemptIn_jumpBy_forward Arithmetic.exact_unbounded h hi hlength]
    · show some _ = some _
      rw [show (s.index : Int) + n + 1 = s.line + n by omega]
    · rintro next target ⟨⟩ ⟨⟩
      exact ⟨by omega, rfl⟩
  · rw [attemptIn_jumpBy_forward Arithmetic.exact_words h hi hlength, hwords, Option.bind_some,
      hwords']
    · rfl
    · rw [hwords]
      rintro next target ⟨⟩ ⟨⟩
      exact ⟨by omega, rfl⟩
  · have hstrict : ∀ next, Arithmetic.strict.sum (s.index + n) = some next →
        Arithmetic.strict.sum (next + 1) = none := by
      intro next hsum
      rw [Arithmetic.eq_of_sum_strict hsum]
      exact Arithmetic.sum_strict_of_lt (by omega)
    rw [attemptIn_jumpBy_forward Arithmetic.exact_strict h hi hlength]
    · rcases hsum : Arithmetic.strict.sum (s.index + n) with - | next
      · rfl
      · rw [Option.bind_some, hstrict next hsum]
        rfl
    · intro next target hsum htarget
      rw [hstrict next hsum] at htarget
      cases htarget

/-- **What overshoots is refused for a place beyond `farthest`.** -/
theorem exists_refusedBeyond (h : m.Fits s) (hm : m.Overshoots s) {length : Nat}
    (hlength : length < 2 ^ 62) : ∃ report target, m.RefusedBeyond length s report target := by
  unfold Overshoots at hm
  split at hm
  next n hi => exact ⟨_, _, refusedBeyond_moveBy h hi hm length⟩
  next n hi => exact ⟨_, _, refusedBeyond_jumpBy h hi hm hlength⟩
  next => exact hm.elim

/-- An address up to `farthest` is reported as it is. -/
theorem clamped_of_checkAddress {line : Nat} {address : Int} {e : Error}
    (h : checkAddress line address size = .error e) (hle : address ≤ farthest) : e.clamped = e := by
  obtain ⟨-, rfl⟩ := checkAddress_eq_error_iff.1 h
  rw [Error.clamped, saturate_of_le hle]

theorem clamped_of_effect (h : m.Fits s) {e : Error} (heffect : m.effect s = .error e) :
    e.clamped = e := by
  obtain ⟨hsize, -, -, hrange, -⟩ := h
  have hcursor := m.cursor.isLt
  have hfarthest : farthest = 2 ^ 63 - 1 := rfl
  unfold effect at heffect
  rcases hi : s.instruction with
    ⟨_ | _, n⟩ | a | a | ⟨d, n⟩ | line | - | name | - | name | - | ⟨r, a, b⟩ | v | ⟨u, v⟩ <;>
    simp only [hi, Instruction.InRange, Text.Numeral.maxMagnitude] at hrange heffect
  case moveBy.forward =>
    rcases bind_eq_error_iff.1 heffect with herror | ⟨c, -, ⟨⟩⟩
    exact clamped_of_checkAddress herror (saturate_le_farthest _)
  case moveBy.backward =>
    rcases bind_eq_error_iff.1 heffect with herror | ⟨c, -, ⟨⟩⟩
    refine clamped_of_checkAddress herror ?_
    rw [Direction.travel]
    omega
  case moveTo | copyTo =>
    rcases bind_eq_error_iff.1 heffect with herror | ⟨c, -, ⟨⟩⟩
    exact clamped_of_checkAddress herror (by omega)
  case call =>
    split at heffect <;> cases heffect
    rfl
  case compare =>
    rcases bind_eq_error_iff.1 heffect with herror | ⟨c, -, heffect⟩
    · exact clamped_of_checkAddress herror (by omega)
    · rcases bind_eq_error_iff.1 heffect with herror | ⟨c', -, ⟨⟩⟩
      exact clamped_of_checkAddress herror (by omega)
  all_goals cases heffect

/-- An attempt reports nothing beyond `farthest`. -/
theorem clamped_attempt (h : m.Fits s) (length : Nat) :
    (m.attempt length s).clamped = m.attempt length s := by
  rcases m.attempt_cases length s with
    ⟨e, heffect, hattempt⟩ | ⟨m', next, e, -, hland, hattempt⟩ |
      ⟨m', next, line, -, -, hattempt⟩ <;>
    rw [hattempt, Attempt.clamped]
  · rw [Option.map_some, clamped_of_effect h heffect]
  · obtain ⟨-, rfl⟩ := checkTarget_eq_error_iff.1 hland
    rw [Option.map_some, Error.clamped, saturate_of_le (saturate_le_farthest _)]
  · rfl

/-- **The arithmetic of words carries every attempt out**, as the integers do but for the place that
an error reports; a sum stays at the largest word just if the attempt overshoots. -/
theorem attempt_eq_attemptIn (h : m.Fits s) {length : Nat} (hlength : length < 2 ^ 62) :
    m.attemptIn .words length s = some (m.attempt length s) ∧
      (m.attemptIn .unbounded length s).map Attempt.clamped = some (m.attempt length s) ∧
      (m.attemptIn .strict length s = none ↔ m.Overshoots s) := by
  by_cases hm : m.Overshoots s
  · obtain ⟨report, target, hbeyond⟩ := exists_refusedBeyond h hm hlength
    rw [hbeyond.words_eq, hbeyond.unbounded_eq, hbeyond.attempt_eq]
    refine ⟨rfl, ?_, iff_of_true hbeyond.strict_eq hm⟩
    simp only [Option.map_some, Attempt.clamped, hbeyond.clamped_eq]
  · have hexact {A : Arithmetic} (hA : A.Exact) := attemptIn_eq hA hlength h hm
    rw [hexact Arithmetic.exact_words, hexact Arithmetic.exact_unbounded,
      hexact Arithmetic.exact_strict, Option.map_some, clamped_attempt h length]
    exact ⟨rfl, rfl, iff_of_false nofun hm⟩

end Machine

namespace Session

variable {size : Nat}

/-- Runs the statement at the machine's position. -/
def stepIn (A : Machine.Arithmetic) (s : Session size) :
    Option (Session size × Except Error Status) :=
  match s.status with
  | .exited => some (s, .ok .exited)
  | .running =>
    match s.program.statement? s.machine.position with
    | none => do
      let line ← A.signed ((← A.signed s.machine.position) + 1)
      return (s, .error (.instructionOutOfRange line s.program.length))
    | some statement =>
      if statement.instruction = .exit then some ({ s with status := .exited }, .ok .exited)
      else do
        let { machine, error? } ← s.machine.attemptIn A s.program.length statement
        match error? with
        | some e => return ({ s with machine }, .error e)
        | none => return ({ s with machine, steps := s.steps + 1 }, .ok .running)

/-- What a step comes to with the error clamped. -/
def clamped (r : Session size × Except Error Status) : Session size × Except Error Status :=
  (r.1, r.2.mapError Error.clamped)

/-- Wherever a session on a prepared machine has come to, the statements of the program fit. -/
theorem fits_of_reachable {text : String} {p : Program} {setup : Setup} {m : Machine setup.cells}
    {s : Session setup.cells} (hp : Program.ofText text = .ok p)
    (htext : (logicalLines text).length < 2 ^ 62) (hcells : setup.cells < 2 ^ 62)
    (hm : Machine.prepare p setup = .ok m) (hs : Reachable { program := p, machine := m } s)
    {st : Statement} (hst : st ∈ p.statements) : s.machine.Fits st := by
  have hwf := Program.wellFormed_of_ofText hp
  have hfollows := hs.follows (follows_of_prepare hwf hm)
  have hlength := Program.length_eq_of_ofText hp
  obtain ⟨hpos, hle, -⟩ := hwf.statement?_of_mem hst
  refine ⟨hcells, hpos, by omega, hwf.inRange hst, fun {name line} hopening ↦ ?_⟩
  rw [Machine.opening?, hfollows.functions_eq] at hopening
  obtain ⟨t, ht, -, rfl⟩ := hwf.lookup_table_eq_some_iff.1 hopening
  have hline := (hwf.statement?_of_mem ht).2.1
  omega

/-- **Words do not change a run.** Wherever a session on a prepared machine has come to, every
statement of the program, and the step that is next, can be carried out in words: no operation
overflows, and no cast loses anything. What they come to is what they come to over the integers, but
that an address or a line beyond `farthest` is reported as `farthest`; and a sum stays at the
largest word just if the address or the line that the statement names lies beyond. -/
theorem stepIn_of_reachable {text : String} {p : Program} {setup : Setup} {m : Machine setup.cells}
    {s : Session setup.cells} (hp : Program.ofText text = .ok p)
    (htext : (logicalLines text).length < 2 ^ 62) (hcells : setup.cells < 2 ^ 62)
    (hm : Machine.prepare p setup = .ok m) (hs : Reachable { program := p, machine := m } s) :
    (∀ st ∈ p.statements,
      s.machine.attemptIn .words p.length st = some (s.machine.attempt p.length st) ∧
        (s.machine.attemptIn .unbounded p.length st).map Attempt.clamped =
          some (s.machine.attempt p.length st) ∧
        (s.machine.attemptIn .strict p.length st = none ↔ s.machine.Overshoots st)) ∧
      s.stepIn .words = some s.step ∧ (s.stepIn .unbounded).map clamped = some s.step := by
  have hattempt (st : Statement) (hst : st ∈ p.statements) :=
    Machine.attempt_eq_attemptIn (fits_of_reachable hp htext hcells hm hs hst)
      (Program.length_eq_of_ofText hp ▸ htext)
  refine ⟨hattempt, ?_⟩
  have hfollows := hs.follows (follows_of_prepare (Program.wellFormed_of_ofText hp) hm)
  unfold stepIn step
  rcases s.status with - | -
  · rw [hfollows.program_eq]
    rcases hst : p.statement? s.machine.position with - | st
    · have hle := hfollows.position_le
      have hlength := Program.length_eq_of_ofText hp
      have hsaturate : saturate (s.machine.position + 1) = s.machine.position + 1 := by
        refine saturate_of_le ?_
        unfold farthest
        omega
      dsimp only
      rw [Machine.Arithmetic.exact_words.signed (by omega) (by omega), Option.bind_eq_bind,
        Option.bind_some, Machine.Arithmetic.exact_words.signed (by omega) (by omega)]
      refine ⟨rfl, ?_⟩
      show some (s, Except.error (Error.instructionOutOfRange (saturate _) _)) = _
      rw [hsaturate]
    · obtain ⟨hwords, hunbounded, -⟩ := hattempt st (Program.mem_of_statement? hst)
      by_cases hexit : st.instruction = .exit
      · simp only [if_pos hexit]
        exact ⟨trivial, rfl⟩
      · simp only [if_neg hexit, hwords]
        obtain ⟨⟨machine, error?⟩, hunbounded, hclamped⟩ := Option.map_eq_some_iff.1 hunbounded
        rw [← hclamped, hunbounded]
        rcases error? with - | e <;> exact ⟨rfl, rfl⟩
  · exact ⟨rfl, rfl⟩

/-- A cursor that has moved by one, and then a move and a jump by the largest amount. -/
theorem stepIn_of_reachable_far :
    ∃ (p : Program) (m : Machine 2) (s : Session 2) (move jump : Statement),
      Program.ofText ("plus memory pointer\nplus memory pointer 9223372036854775807\n" ++
        "plus instruction pointer 9223372036854775807\nexit") = .ok p ∧
      (logicalLines ("plus memory pointer\nplus memory pointer 9223372036854775807\n" ++
        "plus instruction pointer 9223372036854775807\nexit")).length < 2 ^ 62 ∧
      (⟨2, []⟩ : Setup).cells < 2 ^ 62 ∧ Machine.prepare p ⟨2, []⟩ = .ok m ∧
      Reachable { program := p, machine := m } s ∧ p.statements[1]? = some move ∧
      p.statements[2]? = some jump ∧
      s.machine.attemptIn .words p.length move =
        some ⟨s.machine, some (.memoryOutOfRange 2 (2 ^ 63 - 1) 2)⟩ ∧
      (s.machine.attemptIn .unbounded p.length move).map Attempt.clamped =
        s.machine.attemptIn .words p.length move ∧
      s.machine.attemptIn .strict p.length move = none ∧
      s.machine.attemptIn .strict p.length jump = none ∧ s.stepIn .words = some s.step := by
  let move : Statement := ⟨2, ["9223372036854775807"], .moveBy .forward 9223372036854775807⟩
  let jump : Statement := ⟨3, ["9223372036854775807"], .jumpBy .forward 9223372036854775807⟩
  let p : Program := ⟨[⟨1, [], .moveBy .forward 1⟩, move, jump, ⟨4, [], .exit⟩], []⟩
  let m : Machine 2 := ⟨#v[0, 0], 0, 0, [], #[]⟩
  let s : Session 2 := ({ program := p, machine := m } : Session 2).step.1
  have hp : Program.ofText ("plus memory pointer\nplus memory pointer 9223372036854775807\n" ++
      "plus instruction pointer 9223372036854775807\nexit") = .ok p := by
    decide +kernel
  have htext : (logicalLines ("plus memory pointer\nplus memory pointer 9223372036854775807\n" ++
      "plus instruction pointer 9223372036854775807\nexit")).length < 2 ^ 62 := by
    rw [← Program.length_eq_of_ofText hp]
    decide +kernel
  have hcells : (⟨2, []⟩ : Setup).cells < 2 ^ 62 := by decide +kernel
  have hm : Machine.prepare p ⟨2, []⟩ = .ok m := by rfl
  have hs : Reachable { program := p, machine := m } s := .step .start
  obtain ⟨hattempt, hstep, -⟩ := stepIn_of_reachable hp htext hcells hm hs
  obtain ⟨hmove, hclamped, hstrict⟩ := hattempt move (by simp [p])
  have hattempted : s.machine.attempt p.length move =
      ⟨s.machine, some (.memoryOutOfRange 2 (2 ^ 63 - 1) 2)⟩ := by
    decide +kernel
  refine ⟨p, m, s, move, jump, hp, htext, hcells, hm, hs, rfl, rfl,
    hmove.trans (by rw [hattempted]), hclamped.trans hmove.symm, hstrict.2 ?_,
    (hattempt jump (by simp [p])).2.2.2 ?_, hstep⟩
  all_goals
    dsimp only [Machine.Overshoots, move, jump]
    decide +kernel

end Session

end CursorMachine
