import CursorMachine.Proofs.Running.Effects

/-!
# What a call keeps

A session goes on by calls of `step` and `next`, in any order, past errors and past the end. This
module says what every such call keeps of the machine, and what a call that fails keeps.

* `Machine.Evolves` bounds what one call makes of a machine. It follows from `Machine.Touches`,
  since the position plays no part in it. `Session.bounded_of_reachable` joins it with the bounds on
  cursor and position.
* A failed step keeps everything (`Session.step_eq_of_error`). This is not visible from
  `Machine.attempt`, which keeps the effect of a statement whose landing is refused. The two never
  come together: an effect that changes anything goes on with the next line
  (`Machine.eq_or_touches_of_effect`), and from a statement that stands on its own line the next
  line is always there to land on (`Machine.exists_checkTarget_next`). So a session that has failed
  a step fails it forever (`Session.eq_of_reachable_of_step_error`).
-/

namespace CursorMachine

namespace Machine

variable {size : Nat} {m m' : Machine size} {s : Statement}

/-! ### Changes to a machine -/

/-- What one call makes of a machine at most: the functions stay, one more value is printed after
the others, and one cell is different. -/
structure Evolves (m m' : Machine size) : Prop where
  functions_eq : m'.functions = m.functions
  printed_eq : m'.printed = m.printed ∨ ∃ v, m'.printed = m.printed.push v
  memory_eq : ∃ a : Fin size, ∀ (b : Nat) (h : b < size), b ≠ a.val → m'.memory[b] = m.memory[b]

theorem Evolves.refl (m : Machine size) : m.Evolves m where
  functions_eq := rfl
  printed_eq := .inl rfl
  memory_eq := ⟨m.cursor, fun _ _ _ ↦ rfl⟩

theorem Touches.evolves (h : m.Touches m') : m.Evolves m' where
  functions_eq := h.functions_eq
  printed_eq := by
    rcases h with - | c | ⟨a, v⟩ | -
    · exact .inl rfl
    · exact .inl rfl
    · exact .inl rfl
    · exact .inr ⟨m.current, rfl⟩
  memory_eq := by
    rcases h with - | c | ⟨a, v⟩ | -
    · exact ⟨m.cursor, fun _ _ _ ↦ rfl⟩
    · exact ⟨m.cursor, fun _ _ _ ↦ rfl⟩
    · exact ⟨a, fun b h hne ↦ Vector.getElem_set_ne a.isLt h hne.symm⟩
    · exact ⟨m.cursor, fun _ _ _ ↦ rfl⟩

/-! ### Statements that are refused -/

/-- **A statement that is refused leaves the machine as it was.** -/
theorem eq_of_attempt_eq_error {p : Program} {i : Nat} {e : Error} (hp : p.WellFormed)
    (hs : p.statement? i = some s) (h : m.attempt p.length s = ⟨m', some e⟩) : m' = m := by
  rcases m.attempt_cases p.length s with
    ⟨e', -, hattempt⟩ | ⟨n, next, e', heffect, hland, hattempt⟩ | ⟨n, next, line, -, -, hattempt⟩
  · exact congrArg Attempt.machine (h.symm.trans hattempt)
  · rcases eq_or_touches_of_effect heffect with rfl | ⟨-, rfl⟩
    · exact congrArg Attempt.machine (h.symm.trans hattempt)
    · obtain ⟨line, hline⟩ := exists_checkTarget_next hp hs
      rw [hline] at hland
      cases hland
  · cases h.symm.trans hattempt

end Machine

namespace Session

variable {size : Nat} {s t : Session size} {p : Program} {functions : List (String × Nat)}

/-! ### Calls -/

/-- **A step changes a cell at most, and prints a value at most.** -/
theorem evolves_step (s : Session size) : s.machine.Evolves s.step.1.machine := by
  obtain ⟨m', position, htouch, -, hmachine⟩ := s.exists_touches_step
  obtain ⟨hfunctions, hprinted, hmemory⟩ := htouch.evolves
  rw [hmachine]
  exact ⟨hfunctions, hprinted, hmemory⟩

theorem evolves_next (s : Session size) : s.machine.Evolves s.next.1.machine := by
  rcases s.next_fst with heq | heq | heq <;> rw [heq]
  · exact .refl s.machine
  · exact s.evolves_step
  · exact s.evolves_step

/-- **What holds of a session at all times.** After any calls, failed ones and calls past the end
among them, the machine has the cells it was set up with and the functions it was prepared with, the
cursor is on a cell, and the position is a place of the program or the place after it. The next call
changes a cell at most, and prints a value at most. -/
theorem bounded_of_reachable {text : String} {p : Program} {setup : Setup}
    {m : Machine setup.cells} (hp : Program.ofText text = .ok p)
    (hm : Machine.prepare p setup = .ok m) {s : Session setup.cells}
    (hs : Reachable { program := p, machine := m } s) :
    s.program = p ∧ s.machine.memory.toArray.size = setup.cells ∧
      s.machine.cursor.val < s.machine.memory.toArray.size ∧ s.machine.position ≤ p.length ∧
      s.machine.functions = m.functions ∧ s.machine.Evolves s.step.1.machine ∧
      s.machine.Evolves s.next.1.machine := by
  have hsize : s.machine.memory.toArray.size = setup.cells := Vector.size_toArray _
  have hstart := follows_of_prepare (Program.wellFormed_of_ofText hp) hm
  have hfollows := hs.follows hstart
  refine ⟨hfollows.program_eq, hsize, ?_, hfollows.position_le, ?_, s.evolves_step, s.evolves_next⟩
  · rw [hsize]
    exact s.machine.cursor.isLt
  · rw [hfollows.functions_eq]
    exact hstart.functions_eq.symm

/-- A value is printed, then `next` fails, and then a step fails. -/
theorem bounded_of_reachable_failed :
    ∃ (p : Program) (m : Machine 2) (s : Session 2),
      Program.ofText "print\nmin memory pointer\nexit" = .ok p ∧
      Machine.prepare p { cells := 2, inputs := [7] } = .ok m ∧
      Reachable { program := p, machine := m } s ∧ s.failed = true ∧ s.machine.printed = #[7] ∧
      s.program = p ∧ s.machine.memory.toArray.size = 2 ∧
      s.machine.cursor.val < s.machine.memory.toArray.size ∧ s.machine.position ≤ p.length ∧
      s.machine.functions = m.functions ∧ s.machine.Evolves s.step.1.machine ∧
      s.machine.Evolves s.next.1.machine := by
  let p : Program := ⟨[⟨1, [], .print⟩, ⟨2, [], .moveBy .backward 1⟩, ⟨3, [], .exit⟩], []⟩
  let m : Machine 2 := ⟨#v[7, 0], 0, 0, [], #[]⟩
  let start : Session 2 := { program := p, machine := m }
  have hp : Program.ofText "print\nmin memory pointer\nexit" = .ok p := by rfl
  have hm : Machine.prepare p { cells := 2, inputs := [7] } = .ok m := by rfl
  obtain ⟨s, hs, hfailed, hprinted⟩ : ∃ s, Reachable start s ∧ s.failed = true ∧
      s.machine.printed = #[7] :=
    ⟨start.next.1.next.1.step.1, .step (.next (.next .start)), by rfl, by rfl⟩
  exact ⟨p, m, s, hp, hm, hs, hfailed, hprinted, bounded_of_reachable hp hm hs⟩

/-! ### Failed steps -/

/-- **A failed step changes nothing.** -/
theorem step_eq_of_error {e : Error} (hp : p.WellFormed) (hs : s.Follows p functions)
    (he : s.step.2 = .error e) : s.step = (s, .error e) := by
  have houtcome := s.outcome_step
  generalize s.step = r at houtcome he ⊢
  cases houtcome with
  | ended | exit | landed => cases he
  | past =>
    cases he
    rfl
  | refused _ hst _ hattempt =>
    cases he
    rw [hs.program_eq] at hst hattempt
    obtain rfl := Machine.eq_of_attempt_eq_error hp hst hattempt
    rfl

/-- A step does not look at whether `next` has failed. -/
theorem step_setFailed (s : Session size) (b : Bool) :
    ({ s with failed := b } : Session size).step = ({ s.step.1 with failed := b }, s.step.2) := by
  obtain ⟨program, machine, status, failed, steps⟩ := s
  rcases status with - | -
  · rcases hst : program.statement? machine.position with - | st
    · rw [step_past rfl hst, step_past rfl hst]
    · by_cases hexit : st.instruction = .exit
      · rw [step_exit rfl hst hexit, step_exit rfl hst hexit]
      · rw [step_attempt rfl hst hexit, step_attempt rfl hst hexit]
        rcases machine.attempt program.length st with ⟨machine', - | e⟩ <;> rfl
  · rw [step_exited rfl, step_exited rfl]

/-- After a step that fails without a change, no call changes anything but the mark that `next` has
failed. -/
theorem Reachable.eq_of_step_eq {e : Error} (h : Reachable s t) (hs : s.step = (s, .error e)) :
    t.step = (t, .error e) ∧ t = { s with failed := t.failed } := by
  have hstep : ∀ {t : Session size}, t = { s with failed := t.failed } →
      t.step = (t, .error e) := by
    intro t ht
    rw [ht, step_setFailed, hs]
  induction h with
  | start => exact ⟨hs, rfl⟩
  | step _ ih =>
    rw [ih.1]
    exact ih
  | @next t _ ih =>
    have heq : t.next.1 = { s with failed := t.next.1.failed } := by
      rcases t.next_fst with heq | heq | heq <;> rw [heq]
      · exact ih.2
      · rw [ih.1]
        exact ih.2
      · rw [ih.1, ih.2]
    exact ⟨hstep heq, heq⟩

/-- **A failed step changes nothing, now or later.** The session is as it was before the step, every
later step fails with the same error, and no call changes the machine, the status or the count of
steps again. -/
theorem eq_of_reachable_of_step_error {text : String} {p : Program} {setup : Setup}
    {m : Machine setup.cells} (hp : Program.ofText text = .ok p)
    (hm : Machine.prepare p setup = .ok m) {s : Session setup.cells}
    (hs : Reachable { program := p, machine := m } s) {e : Error} (he : s.step.2 = .error e) :
    s.step.1 = s ∧
      ∀ t, Reachable s.step.1 t →
        t.step = (t, .error e) ∧ t = { s with failed := t.failed } := by
  have hwf := Program.wellFormed_of_ofText hp
  have hstep := step_eq_of_error hwf (hs.follows (follows_of_prepare hwf hm)) he
  rw [hstep]
  exact ⟨rfl, fun t ht ↦ ht.eq_of_step_eq hstep⟩

/-- A move of the cursor below the first cell fails the same way after two items as before them. -/
theorem eq_of_reachable_of_step_error_backward :
    ∃ (p : Program) (m : Machine 1) (s : Session 1),
      Program.ofText "print\nmin memory pointer\nexit" = .ok p ∧
      Machine.prepare p { cells := 1 } = .ok m ∧
      Reachable { program := p, machine := m } s ∧
      s.step.2 = .error (.memoryOutOfRange 2 (-1) 1) ∧ s.step.1 = s ∧
      s.next.1.next.1.step.2 = .error (.memoryOutOfRange 2 (-1) 1) ∧
      s.next.1.next.1.machine = s.machine := by
  let p : Program := ⟨[⟨1, [], .print⟩, ⟨2, [], .moveBy .backward 1⟩, ⟨3, [], .exit⟩], []⟩
  let m : Machine 1 := ⟨#v[0], 0, 0, [], #[]⟩
  let s : Session 1 := (⟨p, m, .running, false, 0⟩ : Session 1).step.1
  have hp : Program.ofText "print\nmin memory pointer\nexit" = .ok p := by rfl
  have hm : Machine.prepare p { cells := 1 } = .ok m := by rfl
  have hs : Reachable { program := p, machine := m } s := .step .start
  have he : s.step.2 = .error (.memoryOutOfRange 2 (-1) 1) := by rfl
  obtain ⟨hsame, hlater⟩ := eq_of_reachable_of_step_error hp hm hs he
  have hreach : Reachable s.step.1 s.next.1.next.1 := by
    rw [hsame]
    exact .next (.next .start)
  obtain ⟨hstep, heq⟩ := hlater _ hreach
  refine ⟨p, m, s, hp, hm, hs, he, hsame, by rw [hstep], ?_⟩
  rw [heq]

end Session

end CursorMachine
