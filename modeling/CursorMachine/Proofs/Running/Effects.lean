import CursorMachine.Session
import CursorMachine.Proofs.Reading.Regions

/-!
# What a step can do

Every fact about runs comes from the same three inversions, one for each layer.

* An *effect* touches one thing: the cursor, a cell, what is printed, or nothing at all
  (`Machine.touches_of_effect`). It never touches the position or the functions, and when it changes
  anything it goes on with the next line (`Machine.eq_or_touches_of_effect`).
* An *attempt* is refused by its effect, or refused by its landing, or lands (`attempt_cases`).
* A *step* finds the session ended, finds nothing to run, finds `exit`, or attempts a statement
  (`Session.step_exited`, `step_past`, `step_exit`, `step_attempt`). `Session.Outcome` lists what it
  comes to, and `Session.outcome_step` is the inversion.

`Session.Reachable` are the sessions that steps and items lead to, in any order; `Session.Follows`
is what all of them keep.
-/

namespace CursorMachine

/-! ### Bounds -/

theorem checkAddress_eq_error_iff {line size : Nat} {address : Int} {e : Error} :
    checkAddress line address size = .error e ↔
      ¬(0 ≤ address ∧ address < size) ∧ e = .memoryOutOfRange line address size := by
  unfold checkAddress
  split <;> simp_all [eq_comm]

theorem checkTarget_eq_error_iff {target : Int} {length : Nat} {e : Error} :
    checkTarget target length = .error e ↔
      ¬(1 ≤ target ∧ target ≤ length + 1) ∧ e = .instructionOutOfRange target length := by
  unfold checkTarget
  split <;> simp_all [eq_comm]

/-- An address below the size is accepted as it is. -/
theorem checkAddress_natCast {line size a : Nat} (h : a < size) :
    checkAddress line a size = .ok ⟨a, h⟩ :=
  checkAddress_eq_ok_iff.2 rfl

/-- A place to continue at is not lost by staying at `farthest`. -/
theorem checkTarget_saturate {target : Int} {length line : Nat}
    (h : checkTarget target length = .ok line) :
    ∃ line', checkTarget (saturate target) length = .ok line' := by
  obtain ⟨rfl, hpos, hle⟩ := checkTarget_eq_ok_iff.1 h
  have hmin : 1 ≤ saturate line ∧ saturate line ≤ line := by
    unfold saturate farthest
    omega
  exact ⟨(saturate line).toNat, checkTarget_eq_ok_iff.2 (by omega)⟩

namespace Machine

variable {size : Nat} {m m' : Machine size} {s : Statement} {next : Int}

/-! ### Effects -/

/-- The machine as it was, but for the cursor, one cell, or one more value printed. -/
inductive Touches (m : Machine size) : Machine size → Prop where
  | nothing : Touches m m
  | cursor (c : Fin size) : Touches m { m with cursor := c }
  | cell (a : Fin size) (v : Cell) : Touches m { m with memory := m.memory.set a v a.isLt }
  | print : Touches m { m with printed := m.printed.push m.current }

theorem Touches.functions_eq (h : m.Touches m') : m'.functions = m.functions := by
  cases h <;> rfl

theorem Touches.position_eq (h : m.Touches m') : m'.position = m.position := by
  cases h <;> rfl

/-- **An effect that changes anything touches one thing, and goes on with the next line.** Only
effects that leave the machine as it is choose where to go on. -/
theorem eq_or_touches_of_effect (h : m.effect s = .ok (m', next)) :
    m' = m ∨ m.Touches m' ∧ next = (s.index : Int) + 1 := by
  unfold effect at h
  dsimp only at h
  rcases hi : s.instruction with
    ⟨d, n⟩ | a | a | ⟨d, n⟩ | line | - | name | - | name | - | ⟨r, a, b⟩ | v | ⟨u, v⟩ <;>
    simp only [hi] at h
  case moveBy | moveTo =>
    obtain ⟨c, -, h⟩ := bind_eq_ok_iff.1 h
    cases h
    exact .inr ⟨.cursor c, rfl⟩
  case copyTo =>
    obtain ⟨a, -, h⟩ := bind_eq_ok_iff.1 h
    cases h
    exact .inr ⟨.cell a _, rfl⟩
  case print =>
    cases h
    exact .inr ⟨.print, rfl⟩
  case set | update =>
    cases h
    exact .inr ⟨.cell _ _, rfl⟩
  case compare =>
    obtain ⟨a, -, h⟩ := bind_eq_ok_iff.1 h
    obtain ⟨b, -, h⟩ := bind_eq_ok_iff.1 h
    cases h
    exact .inl rfl
  case call =>
    split at h
    · cases h
      exact .inl rfl
    · cases h
  all_goals
    cases h
    exact .inl rfl

/-- **An effect touches one thing at most.** -/
theorem touches_of_effect (h : m.effect s = .ok (m', next)) : m.Touches m' := by
  rcases eq_or_touches_of_effect h with rfl | ⟨htouch, -⟩
  · exact .nothing
  · exact htouch

/-! ### Attempts -/

theorem attempt_of_effect_error {length : Nat} {e : Error} (h : m.effect s = .error e) :
    m.attempt length s = ⟨m, some e⟩ := by
  rw [attempt, h]

theorem attempt_of_landing_error {length : Nat} {e : Error} (h : m.effect s = .ok (m', next))
    (hnext : checkTarget (saturate (next + 1)) length = .error e) :
    m.attempt length s = ⟨m', some e⟩ := by
  rw [attempt, h]
  dsimp only
  rw [hnext]

theorem attempt_of_landing {length line : Nat} (h : m.effect s = .ok (m', next))
    (hnext : checkTarget (saturate (next + 1)) length = .ok line) :
    m.attempt length s = ⟨{ m' with position := line - 1 }, none⟩ := by
  rw [attempt, h]
  dsimp only
  rw [hnext]

/-- **An attempt is refused by its effect, or refused by its landing, or lands.** -/
theorem attempt_cases (m : Machine size) (length : Nat) (s : Statement) :
    (∃ e, m.effect s = .error e ∧ m.attempt length s = ⟨m, some e⟩) ∨
      (∃ m' next e, m.effect s = .ok (m', next) ∧
        checkTarget (saturate (next + 1)) length = .error e ∧
        m.attempt length s = ⟨m', some e⟩) ∨
      ∃ m' next line, m.effect s = .ok (m', next) ∧
        checkTarget (saturate (next + 1)) length = .ok line ∧
        m.attempt length s = ⟨{ m' with position := line - 1 }, none⟩ := by
  rcases heffect : m.effect s with e | ⟨m', next⟩
  · exact .inl ⟨e, rfl, attempt_of_effect_error heffect⟩
  · rcases hnext : checkTarget (saturate (next + 1)) length with e | line
    · exact .inr (.inl ⟨m', next, e, rfl, hnext, attempt_of_landing_error heffect hnext⟩)
    · exact .inr (.inr ⟨m', next, line, rfl, hnext, attempt_of_landing heffect hnext⟩)

/-- An attempt touches one thing at most, besides the position, and stays on the program. -/
theorem exists_touches_attempt (m : Machine size) (length : Nat) (s : Statement) :
    ∃ m' position, m.Touches m' ∧ (position = m.position ∨ position ≤ length) ∧
      (m.attempt length s).machine = { m' with position } := by
  rcases m.attempt_cases length s with
    ⟨e, -, hattempt⟩ | ⟨m', next, e, heffect, -, hattempt⟩ |
    ⟨m', next, line, heffect, hline, hattempt⟩ <;> rw [hattempt]
  · exact ⟨m, _, .nothing, .inl rfl, rfl⟩
  · have htouch := touches_of_effect heffect
    exact ⟨m', _, htouch, .inl htouch.position_eq, rfl⟩
  · have hle := (checkTarget_eq_ok_iff.1 hline).2.2
    exact ⟨m', _, touches_of_effect heffect, .inr (Nat.sub_le_of_le_add hle), rfl⟩

/-- Going on from a statement lands, on the next line or past the last one. -/
theorem exists_checkTarget_next {p : Program} {i : Nat} (hp : p.WellFormed)
    (hs : p.statement? i = some s) :
    ∃ line, checkTarget (saturate ((s.index : Int) + 1 + 1)) p.length = .ok line := by
  have hlt := Program.lt_length_of_statement? hs
  have hindex := hp.index_eq hs
  have hnext : checkTarget ((s.index : Int) + 1 + 1) p.length = .ok (i + 2) :=
    checkTarget_eq_ok_iff.2 (by omega)
  exact checkTarget_saturate hnext

end Machine

namespace Session

variable {size : Nat} {s : Session size} {st : Statement}

/-! ### Steps -/

theorem step_exited (h : s.status = .exited) : s.step = (s, .ok .exited) := by
  rw [step, h]

theorem step_past (h : s.status = .running)
    (hst : s.program.statement? s.machine.position = none) :
    s.step =
      (s, .error (.instructionOutOfRange (s.machine.position + 1) s.program.length)) := by
  rw [step, h]
  dsimp only
  rw [hst]

theorem step_exit (h : s.status = .running)
    (hst : s.program.statement? s.machine.position = some st) (hexit : st.instruction = .exit) :
    s.step = ({ s with status := .exited }, .ok .exited) := by
  rw [step, h]
  dsimp only
  rw [hst]
  exact if_pos hexit

theorem step_attempt (h : s.status = .running)
    (hst : s.program.statement? s.machine.position = some st) (hexit : st.instruction ≠ .exit) :
    s.step =
      match s.machine.attempt s.program.length st with
      | ⟨machine, some e⟩ => ({ s with machine }, .error e)
      | ⟨machine, none⟩ => ({ s with machine, steps := s.steps + 1 }, .ok .running) := by
  rw [step, h]
  dsimp only
  rw [hst]
  dsimp only
  rw [if_neg hexit]
  rcases s.machine.attempt s.program.length st with ⟨machine, - | e⟩ <;> rfl

/-- What a step comes to, by what it finds. -/
inductive Outcome (s : Session size) : Session size × Except Error Status → Prop where
  | ended (h : s.status = .exited) : Outcome s (s, .ok .exited)
  | past (h : s.status = .running) (hst : s.program.statement? s.machine.position = none) :
      Outcome s (s, .error (.instructionOutOfRange (s.machine.position + 1) s.program.length))
  | exit {st : Statement} (h : s.status = .running)
      (hst : s.program.statement? s.machine.position = some st) (hexit : st.instruction = .exit) :
      Outcome s ({ s with status := .exited }, .ok .exited)
  | refused {st : Statement} {machine : Machine size} {e : Error} (h : s.status = .running)
      (hst : s.program.statement? s.machine.position = some st) (hexit : st.instruction ≠ .exit)
      (hattempt : s.machine.attempt s.program.length st = ⟨machine, some e⟩) :
      Outcome s ({ s with machine }, .error e)
  | landed {st : Statement} {machine : Machine size} (h : s.status = .running)
      (hst : s.program.statement? s.machine.position = some st) (hexit : st.instruction ≠ .exit)
      (hattempt : s.machine.attempt s.program.length st = ⟨machine, none⟩) :
      Outcome s ({ s with machine, steps := s.steps + 1 }, .ok .running)

theorem outcome_step (s : Session size) : s.Outcome s.step := by
  rcases h : s.status with - | -
  · rcases hst : s.program.statement? s.machine.position with - | st
    · rw [step_past h hst]
      exact .past h hst
    · by_cases hexit : st.instruction = .exit
      · rw [step_exit h hst hexit]
        exact .exit h hst hexit
      · rw [step_attempt h hst hexit]
        rcases hattempt : s.machine.attempt s.program.length st with ⟨machine, - | e⟩
        · exact .landed h hst hexit hattempt
        · exact .refused h hst hexit hattempt
  · rw [step_exited h]
    exact .ended h

/-- **A step of a running session fails, or ends the session, or goes on.** Only a step that goes on
is counted, and only one that ends the session changes the status. -/
theorem step_cases (h : s.status = .running) :
    (∃ machine e, s.step = ({ s with machine }, .error e)) ∨
      s.step = ({ s with status := .exited }, .ok .exited) ∨
      ∃ machine, s.step = ({ s with machine, steps := s.steps + 1 }, .ok .running) := by
  have houtcome := s.outcome_step
  generalize s.step = r at houtcome ⊢
  cases houtcome with
  | ended hended => cases h.symm.trans hended
  | past => exact .inl ⟨s.machine, _, rfl⟩
  | exit => exact .inr (.inl rfl)
  | refused => exact .inl ⟨_, _, rfl⟩
  | landed => exact .inr (.inr ⟨_, rfl⟩)

/-- **A step touches one thing at most**, besides the position, and stays on the program. -/
theorem exists_touches_step (s : Session size) :
    ∃ m' position, s.machine.Touches m' ∧
      (position = s.machine.position ∨ position ≤ s.program.length) ∧
      s.step.1.machine = { m' with position } := by
  have houtcome := s.outcome_step
  generalize s.step = r at houtcome ⊢
  cases houtcome with
  | ended | past | exit => exact ⟨s.machine, _, .nothing, .inl rfl, rfl⟩
  | @refused st _ _ _ _ _ hattempt | @landed st _ _ _ _ hattempt =>
    have htouch := s.machine.exists_touches_attempt s.program.length st
    rw [hattempt] at htouch
    exact htouch

theorem program_step (s : Session size) : s.step.1.program = s.program := by
  have houtcome := s.outcome_step
  generalize s.step = r at houtcome ⊢
  cases houtcome <;> rfl

/-- A step that goes on leaves the session running. -/
theorem status_step_of_running (h : s.step.2 = .ok .running) : s.step.1.status = .running := by
  have houtcome := s.outcome_step
  generalize s.step = r at houtcome h ⊢
  cases houtcome with
  | landed hstatus => exact hstatus
  | ended | past | exit | refused => cases h

/-! ### Sessions that are reached -/

/-- What steps and items lead to from a session, in any order, past errors and past the end. -/
inductive Reachable (start : Session size) : Session size → Prop where
  | start : Reachable start start
  | step {s : Session size} (h : Reachable start s) : Reachable start s.step.1
  | next {s : Session size} (h : Reachable start s) : Reachable start s.next.1

/-- The session runs this program, with these functions callable, and stands on one of its places or
past the last of them. -/
structure Follows (p : Program) (functions : List (String × Nat)) (s : Session size) : Prop where
  program_eq : s.program = p
  functions_eq : s.machine.functions = functions
  position_le : s.machine.position ≤ p.length

variable {p : Program} {functions : List (String × Nat)}

/-- **A step keeps the program, the functions and the bound on the position**, whether it fails or
not. -/
theorem Follows.step (h : s.Follows p functions) : s.step.1.Follows p functions := by
  obtain ⟨m', position, htouch, hposition, hmachine⟩ := s.exists_touches_step
  refine ⟨s.program_step.trans h.program_eq, ?_, ?_⟩
  · rw [hmachine]
    exact htouch.functions_eq.trans h.functions_eq
  · rw [hmachine]
    rcases hposition with rfl | hle
    · exact h.position_le
    · rwa [h.program_eq] at hle

/-- An item is a step, or nothing. -/
theorem next_fst (s : Session size) :
    s.next.1 = s ∨ s.next.1 = s.step.1 ∨ s.next.1 = { s.step.1 with failed := true } := by
  unfold next
  split
  · exact .inl rfl
  · rcases hstep : s.step with ⟨s', - | -⟩
    · exact .inr (.inr rfl)
    · exact .inr (.inl rfl)

theorem Follows.next (h : s.Follows p functions) : s.next.1.Follows p functions := by
  rcases s.next_fst with heq | heq | heq <;> rw [heq]
  · exact h
  · exact h.step
  · exact ⟨h.step.program_eq, h.step.functions_eq, h.step.position_le⟩

theorem Reachable.follows {start : Session size} (h : Reachable start s)
    (hstart : start.Follows p functions) : s.Follows p functions := by
  induction h with
  | start => exact hstart
  | step _ ih => exact ih.step
  | next _ ih => exact ih.next

/-- A session on a prepared machine stands at the entry, with the functions of its program. -/
theorem follows_of_prepare {setup : Setup} {m : Machine setup.cells} (hp : p.WellFormed)
    (hm : Machine.prepare p setup = .ok m) :
    Follows p p.table ({ program := p, machine := m } : Session setup.cells) := by
  obtain ⟨-, -, -, -, hposition, hfunctions, -⟩ := Machine.prepare_eq_ok_iff.1 hm
  exact ⟨rfl, hfunctions, hposition ▸ hp.entry_le_length⟩

end Session

end CursorMachine
