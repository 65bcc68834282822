import CursorMachine.Arm.Lowering
import CursorMachine.Proofs.Running.Effects

/-!
# Checks before lowering and errors while running

Lowering judges a statement by its line (`Statement.check`), a run judges it by its place
(`Machine.effect`, then the landing). This module compares the two verdicts.

* A statement that passes its check has an effect, and lands, on every machine that knows the
  functions of the program (`Machine.attempt_of_check`). Only a move of the cursor has no check; it
  is refused for the address it leads to and for nothing else (`Machine.attempt_moveBy_eq_error`).
  So an accepted program fails in two ways only (`Session.step_error_of_generate`).
* A statement that fails its check is refused with the same error
  (`Machine.attempt_of_check_error`), with one exception: a comparison on the last line is refused
  by its check for the sake of the place it continues at when it does *not* hold. When it holds, it
  lands (`Session.step_error_iff_of_generate_error`).
-/

namespace CursorMachine

/-! ### Lists of checks -/

section Lists

variable {α : Type} {f : α → Except Error Unit} {l : List α} {e : Error}

theorem forM_eq_ok_iff : l.forM f = .ok () ↔ ∀ a ∈ l, f a = .ok () := by
  induction l with
  | nil => simp [pure, Except.pure]
  | cons a l ih =>
    rw [List.forM, bind_eq_ok_iff, List.forall_mem_cons, ← ih]
    constructor
    · rintro ⟨⟨⟩, ha, hl⟩
      exact ⟨ha, hl⟩
    · exact fun h ↦ ⟨(), h⟩

/-- A list of checks fails with the error of the first one that fails. -/
theorem forM_eq_error_iff :
    l.forM f = .error e ↔
      ∃ i, ∃ h : i < l.length, f l[i] = .error e ∧ ∀ j (hj : j < i), f l[j] = .ok () := by
  induction l with
  | nil => simp [pure, Except.pure]
  | cons a l ih =>
    rw [List.forM, bind_eq_error_iff]
    constructor
    · rintro (ha | ⟨⟨⟩, ha, hl⟩)
      · exact ⟨0, by simp, ha, fun j hj ↦ absurd hj j.not_lt_zero⟩
      · obtain ⟨i, hi, he, hbefore⟩ := ih.1 hl
        refine ⟨i + 1, by simpa using hi, he, fun j hj ↦ ?_⟩
        cases j with
        | zero => exact ha
        | succ j => exact hbefore j (by omega)
    · rintro ⟨i, hi, he, hbefore⟩
      cases i with
      | zero => exact .inl he
      | succ i =>
        refine .inr ⟨(), hbefore 0 (by omega), ih.2 ⟨i, by simpa using hi, he, fun j hj ↦ ?_⟩⟩
        exact hbefore (j + 1) (by omega)

end Lists

namespace Arm

variable {p : Program} {layout : Layout} {options : Options} {inputs : List Cell}

/-- What lowering asks for before it looks at a statement. -/
structure Layout.Accepts (layout : Layout) (options : Options) (inputs : List Cell) : Prop where
  isIdentifier : Text.isIdentifier options.entry = true
  size_ne : layout.size ≠ 0
  size_lt : layout.size * wordBytes < UInt32.size
  inputs_le : inputs.length ≤ layout.size

/-- Past the first demands, lowering is the checks of the statements and nothing else. -/
theorem generate_eq_of_accepts (h : layout.Accepts options inputs) :
    generate p layout options inputs =
      (p.statements.forM fun s ↦ s.check layout p.length) >>= fun _ ↦
        .ok (lower p layout options inputs) := by
  have hsize : ¬(layout.size = 0 ∨ UInt32.size ≤ layout.size * wordBytes) := by
    have := h.size_ne
    have := h.size_lt
    omega
  simp only [generate, h.isIdentifier, hsize, Nat.not_lt.2 h.inputs_le]
  rfl

theorem accepts_of_generate_eq_ok {lines : List Line}
    (h : generate p layout options inputs = .ok lines) : layout.Accepts options inputs := by
  unfold generate at h
  dsimp only at h
  split at h
  · cases h
  · split at h
    · cases h
    · split at h
      · cases h
      · next hid hbounds hle =>
        exact ⟨by simpa using hid, by omega, by omega, Nat.not_lt.1 hle⟩

/-- **What lowering accepts**, and what it gives. -/
theorem generate_eq_ok_iff {lines : List Line} :
    generate p layout options inputs = .ok lines ↔
      layout.Accepts options inputs ∧
        (∀ s ∈ p.statements, s.check layout p.length = .ok ()) ∧
        lines = lower p layout options inputs := by
  constructor
  · intro h
    have haccepts := accepts_of_generate_eq_ok h
    rw [generate_eq_of_accepts haccepts, bind_eq_ok_iff] at h
    obtain ⟨⟨⟩, hchecks, hlines⟩ := h
    cases hlines
    exact ⟨haccepts, forM_eq_ok_iff.1 hchecks, rfl⟩
  · rintro ⟨haccepts, hchecks, rfl⟩
    rw [generate_eq_of_accepts haccepts, forM_eq_ok_iff.2 hchecks]
    rfl

/-- **What lowering refuses for a statement**: the first one that fails its check. -/
theorem generate_eq_error_iff (h : layout.Accepts options inputs) {e : Error} :
    generate p layout options inputs = .error e ↔
      ∃ i s, p.statement? i = some s ∧ s.check layout p.length = .error e ∧
        ∀ j < i, ∀ t, p.statement? j = some t → t.check layout p.length = .ok () := by
  rw [generate_eq_of_accepts h, bind_eq_error_iff]
  simp only [reduceCtorEq, and_false, exists_false, or_false, forM_eq_error_iff]
  constructor
  · rintro ⟨i, hi, he, hbefore⟩
    refine ⟨i, _, List.getElem?_eq_getElem hi, he, fun j hj t ht ↦ ?_⟩
    obtain ⟨-, rfl⟩ := Program.statement?_eq_some_iff.1 ht
    exact hbefore j hj
  · rintro ⟨i, s, hs, he, hbefore⟩
    obtain ⟨hi, rfl⟩ := Program.statement?_eq_some_iff.1 hs
    exact ⟨i, hi, he, fun j hj ↦ hbefore j hj _ (List.getElem?_eq_getElem _)⟩

end Arm

/-! ### Statements that pass their check -/

theorem discard_eq_ok_iff {α : Type} {x : Except Error α} :
    discard x = .ok () ↔ ∃ a, x = .ok a := by
  cases x <;> simp [discard, Functor.mapConst, Except.map]

theorem discard_eq_error_iff {α : Type} {x : Except Error α} {e : Error} :
    discard x = .error e ↔ x = .error e := by
  cases x <;> simp [discard, Functor.mapConst, Except.map]

/-- Moving by a number of lines from a place leads where moving from its line does. -/
theorem saturate_travel_index {line : Nat} (h : 1 ≤ line) (d : Direction) (n : Nat) :
    saturate (d.travel (line - 1 : Nat) n + 1) = saturate (d.travel line n) := by
  cases d
  · simp only [Direction.travel, saturate, farthest]
    omega
  · simp only [Direction.travel, saturate, farthest]
    omega

namespace Machine

variable {size : Nat} {m : Machine size} {p : Program} {i : Nat} {s : Statement}
  {layout : Arm.Layout}

theorem opening?_eq_none_iff {name : String} :
    m.opening? name = none ↔ name ∉ m.functions.map Prod.fst := by
  rw [opening?, List.lookup_eq_none_iff, List.mem_map]
  constructor
  · rintro h ⟨q, hq, rfl⟩
    simpa using h q hq
  · exact fun h q hq ↦ bne_iff_ne.2 fun heq ↦ h ⟨q, hq, heq.symm⟩

/-- **A statement that passes its check has an effect and lands**, unless it moves the cursor. -/
theorem attempt_of_check (hp : p.WellFormed) (hs : p.statement? i = some s)
    (hsize : layout.size = size) (hcallable : layout.callable = m.functions.map Prod.fst)
    (hfunctions : m.functions = p.table) (h : s.check layout p.length = .ok ())
    (hmove : ∀ d n, s.instruction ≠ .moveBy d n) :
    (m.attempt p.length s).error? = none := by
  subst hsize
  have hline := hp.line_eq hs
  have hindex := hp.index_eq hs
  have hnext := exists_checkTarget_next hp hs
  suffices ∃ m' next, m.effect s = .ok (m', next) ∧
      ∃ line, checkTarget (saturate (next + 1)) p.length = .ok line by
    obtain ⟨m', next, heffect, line, hland⟩ := this
    rw [attempt_of_landing heffect hland]
  unfold effect
  unfold Statement.check at h
  rcases hi : s.instruction with
    ⟨d, n⟩ | a | a | ⟨d, n⟩ | line | - | name | - | name | - | ⟨r, a, b⟩ | v | ⟨u, v⟩ <;>
    simp only [hi] at h hmove ⊢
  case moveBy => exact absurd rfl (hmove d n)
  case moveTo | copyTo =>
    obtain ⟨c, hc⟩ := discard_eq_ok_iff.1 h
    exact ⟨_, _, bind_eq_ok_iff.2 ⟨c, hc, rfl⟩, hnext⟩
  case jumpBy =>
    obtain ⟨line, hl⟩ := discard_eq_ok_iff.1 h
    refine ⟨_, _, rfl, ?_⟩
    rw [Statement.index, saturate_travel_index (by omega)]
    exact checkTarget_saturate hl
  case jumpTo =>
    obtain ⟨line', hl⟩ := discard_eq_ok_iff.1 h
    refine ⟨_, _, rfl, ?_⟩
    rw [Int.sub_add_cancel]
    exact checkTarget_saturate hl
  case call =>
    split at h
    · next hmem =>
      -- The opening line of a function is a line of the program, so the one after it can be met.
      have hne : m.opening? name ≠ none := by
        rw [ne_eq, opening?_eq_none_iff, not_not, ← hcallable]
        exact List.contains_iff_mem.1 hmem
      obtain ⟨first, hfirst⟩ := Option.ne_none_iff_exists'.1 hne
      rw [hfirst]
      rw [opening?, hfunctions, hp.lookup_table_eq_some_iff] at hfirst
      obtain ⟨t, ht, -, rfl⟩ := hfirst
      have hle := (hp.statement?_of_mem ht).2.1
      have hland : checkTarget (t.line + 1) p.length = .ok (t.line + 1) :=
        checkTarget_eq_ok_iff.2 (by omega)
      exact ⟨_, _, rfl, checkTarget_saturate hland⟩
    · cases h
  case compare =>
    obtain ⟨⟨⟩, ha, h⟩ := bind_eq_ok_iff.1 h
    obtain ⟨⟨⟩, hb, h⟩ := bind_eq_ok_iff.1 h
    obtain ⟨⟨⟩, -, h⟩ := bind_eq_ok_iff.1 h
    obtain ⟨a', ha⟩ := discard_eq_ok_iff.1 ha
    obtain ⟨b', hb⟩ := discard_eq_ok_iff.1 hb
    obtain ⟨line, hl⟩ := discard_eq_ok_iff.1 h
    refine ⟨_, _, bind_eq_ok_iff.2 ⟨a', ha, bind_eq_ok_iff.2 ⟨b', hb, rfl⟩⟩, ?_⟩
    split
    · exact hnext
    · have heq : (s.index : Int) + 2 + 1 = s.line + 2 := by omega
      rw [heq]
      exact checkTarget_saturate hl
  all_goals exact ⟨_, _, rfl, hnext⟩

/-- **A move of the cursor is refused only for the address it leads to**, and then nothing
changes. -/
theorem attempt_moveBy_eq_error (hp : p.WellFormed) (hs : p.statement? i = some s)
    {d : Direction} {n : Nat} (hi : s.instruction = .moveBy d n) {m' : Machine size} {e : Error}
    (h : m.attempt p.length s = ⟨m', some e⟩) :
    m' = m ∧ ¬(0 ≤ d.travel m.cursor.val n ∧ d.travel m.cursor.val n < size) ∧
      e = .memoryOutOfRange s.line (d.travel m.cursor.val n) size := by
  have heffect : m.effect s = do
      return ({ m with cursor := ← checkAddress s.line (d.travel m.cursor.val n) size },
        (s.index : Int) + 1) := by
    rw [effect, hi]
  rcases m.attempt_cases p.length s with
    ⟨e', he, hattempt⟩ | ⟨m₁, next, e', hok, hland, hattempt⟩ | ⟨m₁, next, line, -, -, hattempt⟩
  · rw [hattempt] at h
    cases h
    rw [heffect] at he
    rcases bind_eq_error_iff.1 he with hcheck | ⟨c, -, hc⟩
    · exact ⟨rfl, checkAddress_eq_error_iff.1 hcheck⟩
    · cases hc
  · rw [heffect] at hok
    obtain ⟨c, -, hc⟩ := bind_eq_ok_iff.1 hok
    cases hc
    obtain ⟨line, hline⟩ := exists_checkTarget_next hp hs
    rw [hline] at hland
    cases hland
  · rw [hattempt] at h
    cases h

end Machine

namespace Session

/-- **What lowering accepts fails in two ways only.** From a prepared machine, whatever steps and
items lead to: a step is refused when a move of the cursor leaves memory, and when there is no
statement left to run. -/
theorem step_error_of_generate {text : String} {p : Program} {setup : Setup}
    {m : Machine setup.cells} {options : Arm.Options} {inputs : List Cell} {lines : List Arm.Line}
    (hp : Program.ofText text = .ok p) (hm : Machine.prepare p setup = .ok m)
    (hlines : Arm.generate p m.layout options inputs = .ok lines)
    {s : Session setup.cells} (hs : Reachable { program := p, machine := m } s)
    {e : Error} (he : s.step.2 = .error e) :
    (∃ st d n, p.statement? s.machine.position = some st ∧ st.instruction = .moveBy d n ∧
        e = .memoryOutOfRange st.line (d.travel s.machine.cursor.val n) setup.cells) ∨
      (s.machine.position = p.length ∧ e = .instructionOutOfRange (p.length + 1) p.length) := by
  have hwf := Program.wellFormed_of_ofText hp
  obtain ⟨hprogram, hfunctions, hposition⟩ := hs.follows (follows_of_prepare hwf hm)
  obtain ⟨-, -, -, -, -, htable, -⟩ := Machine.prepare_eq_ok_iff.1 hm
  rcases hstatus : s.status with - | -
  · rcases hst : p.statement? s.machine.position with - | st
    · rw [step_past hstatus (hprogram ▸ hst), hprogram] at he
      cases he
      have := Program.statement?_eq_none_iff.1 hst
      obtain heq : s.machine.position = p.length := by omega
      exact .inr ⟨heq, by rw [heq]⟩
    · have hst' : s.program.statement? s.machine.position = some st := hprogram ▸ hst
      by_cases hexit : st.instruction = .exit
      · rw [step_exit hstatus hst' hexit] at he
        cases he
      · rw [step_attempt hstatus hst' hexit, hprogram] at he
        obtain ⟨m', hattempt⟩ : ∃ m', s.machine.attempt p.length st = ⟨m', some e⟩ := by
          rcases hattempt : s.machine.attempt p.length st with ⟨machine, - | e'⟩
          · rw [hattempt] at he
            cases he
          · rw [hattempt] at he
            cases he
            exact ⟨machine, rfl⟩
        by_cases hmove : ∃ d n, st.instruction = .moveBy d n
        · obtain ⟨d, n, hi⟩ := hmove
          exact .inl ⟨st, d, n, rfl, hi,
            (Machine.attempt_moveBy_eq_error hwf hst hi hattempt).2.2⟩
        · have hcheck := (Arm.generate_eq_ok_iff.1 hlines).2.1 st (Program.mem_of_statement? hst)
          have hcallable : m.layout.callable = s.machine.functions.map Prod.fst := by
            rw [hfunctions, ← htable]
            rfl
          have hnone := Machine.attempt_of_check (m := s.machine) hwf hst rfl hcallable hfunctions
            hcheck fun d n hi ↦ hmove ⟨d, n, hi⟩
          rw [hattempt] at hnone
          cases hnone
  · rw [step_exited hstatus] at he
    cases he

/-- A program that is accepted, and whose first step leaves memory. -/
theorem step_error_of_generate_leaving :
    ∃ (p : Program) (m : Machine 1) (lines : List Arm.Line) (e : Error),
      Program.ofText "min memory pointer\nexit" = .ok p ∧
      Machine.prepare p { cells := 1 } = .ok m ∧
      Arm.generate p m.layout {} [] = .ok lines ∧
      ({ program := p, machine := m } : Session 1).step.2 = .error e ∧
      ((∃ st d n, p.statement? m.position = some st ∧ st.instruction = .moveBy d n ∧
          e = .memoryOutOfRange st.line (d.travel m.cursor.val n) 1) ∨
        (m.position = p.length ∧ e = .instructionOutOfRange (p.length + 1) p.length)) := by
  let p : Program := ⟨[⟨1, [], .moveBy .backward 1⟩, ⟨2, [], .exit⟩], []⟩
  let m : Machine 1 := ⟨#v[0], 0, 0, [], #[]⟩
  have hp : Program.ofText "min memory pointer\nexit" = .ok p := by rfl
  have hm : Machine.prepare p { cells := 1 } = .ok m := by rfl
  have hlines : Arm.generate p m.layout {} [] = .ok (Arm.lower p m.layout {} []) := by rfl
  have he : ({ program := p, machine := m } : Session 1).step.2 =
      .error (.memoryOutOfRange 1 (-1) 1) := by rfl
  exact ⟨p, m, _, _, hp, hm, hlines, he, step_error_of_generate hp hm hlines .start he⟩

end Session

/-! ### Statements that fail their check -/

namespace Machine

variable {size : Nat} {m : Machine size} {p : Program} {i : Nat} {s : Statement}
  {layout : Arm.Layout} {e : Error}

/-- The statement is a comparison on the last of `length` lines, and it holds. -/
def HoldsOnLast (m : Machine size) (length : Nat) (s : Statement) : Prop :=
  s.line = length ∧ ∃ r a b, ∃ (ha : a < size) (hb : b < size),
    s.instruction = .compare r a b ∧ r.holds m.memory[a] m.memory[b] = true

/-- A comparison that holds on the last line continues past it. -/
theorem attempt_of_holdsOnLast (hp : p.WellFormed) (hlength : (p.length : Int) < farthest)
    (hs : p.statement? i = some s) (h : m.HoldsOnLast p.length s) :
    m.attempt p.length s = ⟨{ m with position := p.length }, none⟩ := by
  obtain ⟨hline, r, a, b, ha, hb, hi, hholds⟩ := h
  have hindex := hp.index_eq hs
  have hplace := hp.line_eq hs
  have heffect : m.effect s = .ok (m, (s.index : Int) + 1) := by
    rw [effect, hi]
    dsimp only
    rw [checkAddress_natCast ha, checkAddress_natCast hb]
    simp only [bind, Except.bind, pure, Except.pure, Fin.getElem_fin, hholds, if_true]
  have hland : checkTarget (saturate ((s.index : Int) + 1 + 1)) p.length = .ok (p.length + 1) := by
    rw [saturate_of_le (by omega)]
    exact checkTarget_eq_ok_iff.2 (by omega)
  rw [attempt_of_landing heffect hland]
  rfl

/-- The statement is refused before anything has changed: by its effect, or by the landing of an
effect that leaves the machine as it is. -/
def Refuses (m : Machine size) (length : Nat) (s : Statement) (e : Error) : Prop :=
  m.effect s = .error e ∨
    ∃ next, m.effect s = .ok (m, next) ∧ checkTarget (saturate (next + 1)) length = .error e

theorem attempt_of_refuses {length : Nat} (h : m.Refuses length s e) :
    m.attempt length s = ⟨m, some e⟩ := by
  rcases h with heffect | ⟨next, heffect, hland⟩
  · exact attempt_of_effect_error heffect
  · exact attempt_of_landing_error heffect hland

theorem refuses_jumpBy {d : Direction} {n : Nat} (hline : 1 ≤ s.line)
    (hlength : (p.length : Int) + 2 ≤ farthest) (hle : s.line ≤ p.length)
    (hi : s.instruction = .jumpBy d n) (h : checkTarget (d.travel s.line n) p.length = .error e) :
    m.Refuses p.length s e := by
  have hsame : saturate (d.travel s.line n) = d.travel s.line n := by
    have hnot := (checkTarget_eq_error_iff.1 h).1
    cases d
    · simp only [Direction.travel, saturate]
      omega
    · exact saturate_of_le (by simp only [Direction.travel]; omega)
  refine .inr ⟨d.travel s.index n, by rw [effect, hi], ?_⟩
  rw [Statement.index, saturate_travel_index hline, hsame]
  exact h

/-- A comparison that fails its check does so for an address, or for the place that it goes on to
when it does not hold. -/
theorem refuses_compare {r : Relation} {a b : Nat} (hline : 1 ≤ s.line)
    (hlength : (p.length : Int) + 2 ≤ farthest) (hle : s.line ≤ p.length)
    (hi : s.instruction = .compare r a b) (hsize : layout.size = size)
    (h : s.check layout p.length = .error e) (hlast : ¬m.HoldsOnLast p.length s) :
    m.Refuses p.length s e := by
  subst hsize
  unfold Statement.check at h
  simp only [hi] at h
  have heffect : m.effect s = do
      let a ← checkAddress s.line a layout.size
      let b ← checkAddress s.line b layout.size
      return (m, if r.holds m.memory[a] m.memory[b] then (s.index : Int) + 1
        else (s.index : Int) + 2) := by
    rw [effect, hi]
  rcases bind_eq_error_iff.1 h with ha | ⟨⟨⟩, ha, h⟩
  · exact .inl (heffect.trans (bind_eq_error_iff.2 (.inl (discard_eq_error_iff.1 ha))))
  obtain ⟨a', ha⟩ := discard_eq_ok_iff.1 ha
  rcases bind_eq_error_iff.1 h with hb | ⟨⟨⟩, hb, h⟩
  · exact .inl (heffect.trans (bind_eq_error_iff.2 (.inr ⟨a', ha, bind_eq_error_iff.2
      (.inl (discard_eq_error_iff.1 hb))⟩)))
  obtain ⟨b', hb⟩ := discard_eq_ok_iff.1 hb
  rcases bind_eq_error_iff.1 h with hnext | ⟨⟨⟩, -, h⟩
  · have hnot := (checkTarget_eq_error_iff.1 (discard_eq_error_iff.1 hnext)).1
    omega
  -- The place after the next one is missing, so the statement is the last one.
  have herror := discard_eq_error_iff.1 h
  have hend : s.line = p.length := by
    have hnot := (checkTarget_eq_error_iff.1 herror).1
    omega
  have hfalse : ¬r.holds m.memory[a'] m.memory[b'] = true := by
    obtain rfl := Int.ofNat.inj (checkAddress_eq_ok_iff.1 ha)
    obtain rfl := Int.ofNat.inj (checkAddress_eq_ok_iff.1 hb)
    exact fun hholds ↦ hlast ⟨hend, r, a', b', a'.isLt, b'.isLt, hi, hholds⟩
  refine .inr ⟨(s.index : Int) + 2, ?_, ?_⟩
  · rw [heffect, ha, hb]
    simp only [bind, Except.bind, pure, Except.pure, if_neg hfalse]
  · have hindex : s.index = s.line - 1 := rfl
    have heq : (s.index : Int) + 2 + 1 = s.line + 2 := by omega
    rw [heq, saturate_of_le (by omega)]
    exact herror

/-- **A statement that fails its check is refused with the same error**, unless it is a comparison
on the last line that holds. -/
theorem attempt_of_check_error (hp : p.WellFormed) (hlength : (p.length : Int) + 2 ≤ farthest)
    (hs : p.statement? i = some s) (hsize : layout.size = size)
    (hcallable : layout.callable = m.functions.map Prod.fst)
    (h : s.check layout p.length = .error e) (hlast : ¬m.HoldsOnLast p.length s) :
    m.attempt p.length s = ⟨m, some e⟩ := by
  subst hsize
  have hline := hp.line_eq hs
  have hlt := Program.lt_length_of_statement? hs
  have hrange := hp.inRange (Program.mem_of_statement? hs)
  refine attempt_of_refuses ?_
  rcases hi : s.instruction with
    ⟨d, n⟩ | a | a | ⟨d, n⟩ | line | - | name | - | name | - | ⟨r, a, b⟩ | v | ⟨u, v⟩
  case compare => exact refuses_compare (by omega) hlength (by omega) hi rfl h hlast
  all_goals
    unfold Statement.check at h
    simp only [hi, reduceCtorEq] at h hrange
  case moveTo | copyTo =>
    left
    rw [effect, hi]
    exact bind_eq_error_iff.2 (.inl (discard_eq_error_iff.1 h))
  case jumpBy =>
    exact refuses_jumpBy (by omega) hlength (by omega) hi (discard_eq_error_iff.1 h)
  case jumpTo =>
    have hle : (line : Int) ≤ farthest := by
      simp only [Instruction.InRange, Text.Numeral.maxMagnitude] at hrange
      simp only [farthest]
      omega
    refine .inr ⟨(line : Int) - 1, by rw [effect, hi], ?_⟩
    rw [Int.sub_add_cancel, saturate_of_le hle]
    exact discard_eq_error_iff.1 h
  case call =>
    split at h
    · cases h
    · next hmem =>
      have hnone : m.opening? name = none := by
        rw [opening?_eq_none_iff, ← hcallable]
        exact fun hname ↦ hmem (List.contains_iff_mem.2 hname)
      cases h
      left
      rw [effect, hi]
      simp only [hnone]

end Machine

namespace Session

/-- **A program is refused for an error that a run would report**, with one exception. When lowering
fails for a statement, every session that stands on that statement fails with the same error,
whatever its cells and its cursor are; unless the statement is a comparison on the last line that
holds, and then the step succeeds and leads past the last line. -/
theorem step_error_iff_of_generate_error {text : String} (htext : text.length < 2 ^ 63)
    {p : Program} {setup : Setup} {m : Machine setup.cells} {options : Arm.Options} {e : Error}
    (hp : Program.ofText text = .ok p) (hm : Machine.prepare p setup = .ok m)
    (hentry : Text.isIdentifier options.entry = true)
    (hcells : setup.cells * Arm.wordBytes < UInt32.size)
    (he : Arm.generate p m.layout options setup.inputs = .error e) :
    ∃ i st, p.statement? i = some st ∧ st.check m.layout p.length = .error e ∧
      (∀ j < i, ∀ t, p.statement? j = some t → t.check m.layout p.length = .ok ()) ∧
      ∀ s : Session setup.cells, s.program = p → s.status = .running →
        s.machine.functions = m.functions → s.machine.position = i →
        (s.step.2 = .error e ↔ ¬s.machine.HoldsOnLast p.length st) ∧
        (s.machine.HoldsOnLast p.length st →
          s.step.2 = .ok .running ∧ s.step.1.machine.position = p.length) := by
  have hwf := Program.wellFormed_of_ofText hp
  have hlength : (p.length : Int) + 2 ≤ farthest := by
    have := Program.length_le_of_ofText hp htext
    unfold farthest
    omega
  obtain ⟨hpos, hinputs, -⟩ := Machine.prepare_eq_ok_iff.1 hm
  have haccepts : m.layout.Accepts options setup.inputs :=
    ⟨hentry, Nat.pos_iff_ne_zero.1 hpos, hcells, hinputs⟩
  obtain ⟨i, st, hst, hcheck, hbefore⟩ := (Arm.generate_eq_error_iff haccepts).1 he
  refine ⟨i, st, hst, hcheck, hbefore, fun s hprogram hstatus hfunctions hposition ↦ ?_⟩
  have hst' : s.program.statement? s.machine.position = some st := by
    rw [hprogram, hposition, hst]
  have hexit : st.instruction ≠ .exit := by
    intro hi
    rw [Statement.check, hi] at hcheck
    cases hcheck
  have hstep := step_attempt hstatus hst' hexit
  rw [hprogram] at hstep
  by_cases hlast : s.machine.HoldsOnLast p.length st
  · rw [Machine.attempt_of_holdsOnLast hwf (by omega) hst hlast] at hstep
    rw [hstep]
    refine ⟨⟨fun h ↦ ?_, fun h ↦ absurd hlast h⟩, fun _ ↦ ⟨rfl, rfl⟩⟩
    cases h
  · have hcallable : m.layout.callable = s.machine.functions.map Prod.fst := by
      rw [hfunctions]
      rfl
    have hattempt :=
      Machine.attempt_of_check_error (m := s.machine) hwf hlength hst rfl hcallable hcheck hlast
    rw [hattempt] at hstep
    rw [hstep]
    exact ⟨⟨fun _ ↦ hlast, fun _ ↦ rfl⟩, fun h ↦ absurd h hlast⟩

/-- A comparison on the last line: refused by lowering, and refused by a step only when it does not
hold. Between a cell and itself it holds. -/
theorem step_error_iff_of_generate_error_compare :
    ∃ (p : Program) (m : Machine 1),
      Program.ofText "exit\nequal compare between 0 0" = .ok p ∧
      Machine.prepare p { cells := 1 } = .ok m ∧
      Arm.generate p m.layout {} [] = .error (.instructionOutOfRange 4 2) ∧
      ({ program := p, machine := { m with position := 1 } } : Session 1).step.2 = .ok .running ∧
      ∃ i st, p.statement? i = some st ∧
        st.check m.layout p.length = .error (.instructionOutOfRange 4 2) ∧
        (∀ j < i, ∀ t, p.statement? j = some t → t.check m.layout p.length = .ok ()) ∧
        ∀ s : Session 1, s.program = p → s.status = .running →
          s.machine.functions = m.functions → s.machine.position = i →
          (s.step.2 = .error (.instructionOutOfRange 4 2) ↔ ¬s.machine.HoldsOnLast p.length st) ∧
          (s.machine.HoldsOnLast p.length st →
            s.step.2 = .ok .running ∧ s.step.1.machine.position = p.length) := by
  let p : Program := ⟨[⟨1, [], .exit⟩, ⟨2, ["0", "0"], .compare .equal 0 0⟩], []⟩
  let m : Machine 1 := ⟨#v[0], 0, 0, [], #[]⟩
  have hp : Program.ofText "exit\nequal compare between 0 0" = .ok p := by rfl
  have hm : Machine.prepare p { cells := 1 } = .ok m := by rfl
  have he : Arm.generate p m.layout {} [] = .error (.instructionOutOfRange 4 2) := by rfl
  exact ⟨p, m, hp, hm, he, by rfl,
    step_error_iff_of_generate_error (by decide) hp hm (by decide) (by decide) he⟩

end Session

end CursorMachine
