import CursorMachine.Proofs.Running.Effects

/-!
# Machines with more cells

A run that comes to `exit` does not change when the machine is given more cells: it takes the same
steps, and the cells that were added still hold zero at the end (`Session.exists_run?_of_cells_le`).

`Machine.Widens` relates a machine to one that has its cells and then some that hold zero. An
address that exists on the first exists on the second, where it is the same cell; so whatever
statement has an effect on the first has the same effect on the second (`Machine.Widens.effect`),
and lands where it lands, since the landing depends on the length of the program only. A step that
does not fail is therefore taken by both (`Session.Widens.step`), and the run follows by induction.

Only this direction holds. A statement that is refused on the first machine for its address may be
carried out on the second.
-/

namespace CursorMachine

/-- An address that exists exists with more cells too. -/
theorem checkAddress_of_le {line size size' : Nat} {address : Int} {a : Fin size}
    (hle : size ≤ size') (h : checkAddress line address size = .ok a) :
    checkAddress line address size' = .ok (a.castLE hle) := by
  rw [checkAddress_eq_ok_iff] at h ⊢
  exact h

namespace Machine

variable {size size' : Nat} {m m₁ : Machine size} {m' : Machine size'} {s : Statement}

/-- The second machine is the first with more cells after the others, which hold zero. -/
structure Widens (m : Machine size) (m' : Machine size') : Prop where
  memory_eq : m'.memory.toList = m.memory.toList ++ List.replicate (size' - size) 0
  cursor_eq : m'.cursor.val = m.cursor.val
  position_eq : m'.position = m.position
  functions_eq : m'.functions = m.functions
  printed_eq : m'.printed = m.printed

namespace Widens

variable (h : m.Widens m')

include h

theorem le : size ≤ size' := by
  have hlength := congrArg List.length h.memory_eq
  simp only [List.length_append, Vector.length_toList, List.length_replicate] at hlength
  omega

/-- The cells that both machines have are the same. -/
theorem getElem_memory {a : Nat} (ha : a < size) (ha' : a < size') :
    m'.memory[a] = m.memory[a] := by
  have hlt : a < m.memory.toList.length := by rwa [Vector.length_toList]
  have hlt' : a < m'.memory.toList.length := by rwa [Vector.length_toList]
  have heq : m'.memory.toList[a] = m.memory.toList[a] := by
    rw [List.getElem_of_eq h.memory_eq, List.getElem_append_left hlt]
  rwa [Vector.getElem_toList, Vector.getElem_toList] at heq

theorem current_eq : m'.current = m.current := by
  simp only [current, Fin.getElem_fin, h.cursor_eq]
  exact h.getElem_memory _ _

theorem setCursor {c : Fin size} {c' : Fin size'} (hc : c'.val = c.val) :
    Widens { m with cursor := c } { m' with cursor := c' } :=
  { h with cursor_eq := hc }

theorem setPosition (place : Nat) :
    Widens { m with position := place } { m' with position := place } :=
  { h with position_eq := rfl }

/-- The same cell is written on both. -/
theorem setCell {a : Nat} (ha : a < size) (ha' : a < size') (v : Cell) :
    Widens { m with memory := m.memory.set a v } { m' with memory := m'.memory.set a v } :=
  { h with
    memory_eq := by
      have hlt : a < m.memory.toList.length := by rwa [Vector.length_toList]
      rw [Vector.toList_set, Vector.toList_set, h.memory_eq, List.set_append_left _ _ hlt] }

theorem write (v : Cell) : (m.write v).Widens (m'.write v) := by
  simp only [Machine.write, h.cursor_eq]
  exact h.setCell _ _ v

theorem print : Widens { m with printed := m.printed.push m.current }
    { m' with printed := m'.printed.push m'.current } :=
  { h with printed_eq := by rw [h.printed_eq, h.current_eq] }

/-- **What has an effect has the same effect on more cells.** -/
theorem effect {next : Int} (heffect : m.effect s = .ok (m₁, next)) :
    ∃ m₁', m'.effect s = .ok (m₁', next) ∧ m₁.Widens m₁' := by
  unfold Machine.effect at heffect ⊢
  rcases hi : s.instruction with
    ⟨d, n⟩ | a | a | ⟨d, n⟩ | line | - | name | - | name | - | ⟨r, a, b⟩ | v | ⟨u, v⟩ <;>
    simp only [hi] at heffect ⊢
  case moveBy | moveTo =>
    obtain ⟨c, hc, heffect⟩ := bind_eq_ok_iff.1 heffect
    cases heffect
    simp only [h.cursor_eq, checkAddress_of_le h.le hc]
    exact ⟨_, rfl, h.setCursor rfl⟩
  case copyTo =>
    obtain ⟨c, hc, heffect⟩ := bind_eq_ok_iff.1 heffect
    cases heffect
    simp only [h.current_eq, checkAddress_of_le h.le hc]
    exact ⟨_, rfl, h.setCell c.isLt _ _⟩
  case print =>
    cases heffect
    exact ⟨_, rfl, h.print⟩
  case call =>
    have hopening : m'.opening? name = m.opening? name := by
      rw [opening?, opening?, h.functions_eq]
    rw [hopening]
    split at heffect
    · cases heffect
      exact ⟨_, rfl, h⟩
    · cases heffect
  case compare =>
    obtain ⟨c, hc, heffect⟩ := bind_eq_ok_iff.1 heffect
    obtain ⟨c', hc', heffect⟩ := bind_eq_ok_iff.1 heffect
    cases heffect
    simp only [checkAddress_of_le h.le hc, checkAddress_of_le h.le hc']
    refine ⟨_, ?_, h⟩
    simp only [bind, Except.bind, pure, Except.pure, Fin.getElem_fin, Fin.val_castLE,
      h.getElem_memory c.isLt, h.getElem_memory c'.isLt]
  case set =>
    cases heffect
    exact ⟨_, rfl, h.write v⟩
  case update =>
    cases heffect
    rw [h.current_eq]
    exact ⟨_, rfl, h.write _⟩
  all_goals
    cases heffect
    exact ⟨_, rfl, h⟩

/-- What lands on the first machine lands on the second, at the same place. -/
theorem attempt {length : Nat} (hattempt : m.attempt length s = ⟨m₁, none⟩) :
    ∃ m₁', m'.attempt length s = ⟨m₁', none⟩ ∧ m₁.Widens m₁' := by
  rcases m.attempt_cases length s with
    ⟨e, -, heq⟩ | ⟨m₂, next, e, -, -, heq⟩ | ⟨m₂, next, line, heffect, hland, heq⟩
  · cases hattempt.symm.trans heq
  · cases hattempt.symm.trans heq
  · cases hattempt.symm.trans heq
    obtain ⟨m₂', heffect', hwidens⟩ := h.effect heffect
    exact ⟨_, attempt_of_landing heffect' hland, hwidens.setPosition _⟩

end Widens

/-- **Preparation gives a wider machine when it is given more cells.** -/
theorem widens_of_prepare {p : Program} {cells cells' : Nat} (hle : cells ≤ cells')
    {inputs : List Cell} {m : Machine cells} (hm : prepare p ⟨cells, inputs⟩ = .ok m) :
    ∃ m' : Machine cells', prepare p ⟨cells', inputs⟩ = .ok m' ∧ m.Widens m' := by
  obtain ⟨hcells, hinputs, hmemory, hcursor, hposition, hfunctions, hprinted⟩ :=
    prepare_eq_ok_iff.1 hm
  have hpos : 0 < cells' := Nat.lt_of_lt_of_le hcells hle
  let m' : Machine cells' := ⟨load cells' inputs, ⟨0, hpos⟩, p.entry, p.table, #[]⟩
  have hm' : prepare p ⟨cells', inputs⟩ = .ok m' :=
    prepare_eq_ok_iff.2 ⟨hpos, hinputs.trans hle, rfl, rfl, rfl, rfl, rfl⟩
  have hload : m'.memory.toList = m.memory.toList ++ List.replicate (cells' - cells) 0 := by
    rw [hmemory]
    refine List.ext_getElem (by simp; omega) fun i hi hi' ↦ ?_
    rw [Vector.getElem_toList, getElem_load, List.getElem_append]
    split
    · rw [Vector.getElem_toList, getElem_load]
    next hout =>
      -- Beyond the smaller machine there is no input left.
      have hge : cells ≤ i := by simpa using hout
      rw [List.getElem_replicate, List.getD_eq_getElem?_getD,
        List.getElem?_eq_none (hinputs.trans hge), Option.getD_none]
  exact ⟨m', hm', hload, hcursor.symm, hposition.symm, hfunctions.symm, hprinted.symm⟩

end Machine

namespace Session

variable {size size' : Nat} {s : Session size} {s' : Session size'}

/-- The second session is the first on a machine with more cells. -/
structure Widens (s : Session size) (s' : Session size') : Prop where
  program_eq : s'.program = s.program
  machine : s.machine.Widens s'.machine
  status_eq : s'.status = s.status
  steps_eq : s'.steps = s.steps

namespace Widens

variable (h : s.Widens s')

include h

/-- Both sessions find the same statement. -/
theorem statement?_eq : s'.program.statement? s'.machine.position =
    s.program.statement? s.machine.position := by
  rw [h.program_eq, h.machine.position_eq]

/-- **A step that does not fail is taken with more cells too.** -/
theorem step {status : Status} (hok : s.step.2 = .ok status) :
    s'.step.2 = .ok status ∧ s.step.1.Widens s'.step.1 := by
  have houtcome := s.outcome_step
  generalize s.step = r at houtcome hok ⊢
  cases houtcome with
  | past | refused => cases hok
  | ended hended =>
    cases hok
    rw [step_exited (h.status_eq.trans hended)]
    exact ⟨rfl, h⟩
  | exit hrunning hst hexit =>
    cases hok
    rw [step_exit (h.status_eq.trans hrunning) (h.statement?_eq.trans hst) hexit]
    exact ⟨rfl, { h with status_eq := rfl }⟩
  | landed hrunning hst hexit hattempt =>
    cases hok
    obtain ⟨m', hattempt', hwidens⟩ := h.machine.attempt hattempt
    rw [step_attempt (h.status_eq.trans hrunning) (h.statement?_eq.trans hst) hexit, h.program_eq,
      hattempt']
    exact ⟨rfl, rfl, hwidens, h.status_eq, congrArg (· + 1) h.steps_eq⟩

end Widens

/-! ### Runs -/

/-- The lines of the statements that a run meets within a number of steps, in order. The last of
them may be one that is refused, or `exit`. -/
def visited : Nat → Session size → List Nat
  | 0, _ => []
  | fuel + 1, s =>
    match s.program.statement? s.machine.position with
    | none => []
    | some st =>
      st.line ::
        match s.step with
        | (s, .ok .running) => visited fuel s
        | _ => []

/-- **A run that comes to `exit` does so with more cells too**, on the same lines and after the same
number of steps. -/
theorem Widens.run? (h : s.Widens s') {fuel : Nat} {m : Machine size}
    (hrun : s.run? fuel = some (.ok m)) :
    ∃ m', s'.run? fuel = some (.ok m') ∧ m.Widens m' ∧
      (s'.advance fuel).steps = (s.advance fuel).steps ∧ s'.visited fuel = s.visited fuel := by
  induction fuel generalizing s s' with
  | zero => cases hrun
  | succ fuel ih =>
    have hstep := @h.step
    rw [Session.run?] at hrun ⊢
    rw [advance, advance, visited, visited, h.statement?_eq]
    rcases hs : s.step with ⟨t, e | status⟩
    · rw [hs] at hrun
      cases hrun
    · rw [hs] at hrun hstep
      obtain ⟨hok, ht⟩ := hstep rfl
      rcases hs' : s'.step with ⟨t', r'⟩
      rw [hs'] at hok ht
      subst hok
      cases status with
      | exited =>
        cases hrun
        exact ⟨_, rfl, ht.machine, ht.steps_eq, rfl⟩
      | running =>
        obtain ⟨m', hrun', hwidens, hsteps, hvisited⟩ := ih ht hrun
        dsimp only at hvisited ⊢
        exact ⟨m', hrun', hwidens, hsteps, by rw [hvisited]⟩

/-- **More cells do not change a run that comes to `exit`.** When a program is run on a machine of
some number of cells and stops at `exit`, then on a machine with the same inputs and at least as
many cells it stops at `exit` too, after the same number of steps and by way of the same lines. It
has printed the same, cursor and position are the same, and the cells are the same with zeros after
them. -/
theorem exists_run?_of_cells_le {p : Program} {cells cells' : Nat} {inputs : List Cell}
    {m final : Machine cells} {fuel : Nat} (hm : Machine.prepare p ⟨cells, inputs⟩ = .ok m)
    (hle : cells ≤ cells')
    (hrun : ({ program := p, machine := m } : Session cells).run? fuel = some (.ok final)) :
    ∃ m' final' : Machine cells', Machine.prepare p ⟨cells', inputs⟩ = .ok m' ∧
      ({ program := p, machine := m' } : Session cells').run? fuel = some (.ok final') ∧
      (({ program := p, machine := m' } : Session cells').advance fuel).steps =
        (({ program := p, machine := m } : Session cells).advance fuel).steps ∧
      ({ program := p, machine := m' } : Session cells').visited fuel =
        ({ program := p, machine := m } : Session cells).visited fuel ∧
      final'.printed = final.printed ∧ final'.cursor.val = final.cursor.val ∧
      final'.position = final.position ∧
      final'.memory.toList = final.memory.toList ++ List.replicate (cells' - cells) 0 := by
  obtain ⟨m', hm', hwidens⟩ := Machine.widens_of_prepare hle hm
  have hsessions : Widens ({ program := p, machine := m } : Session cells)
      ({ program := p, machine := m' } : Session cells') := ⟨rfl, hwidens, rfl, rfl⟩
  obtain ⟨final', hrun', hfinal, hsteps, hvisited⟩ := hsessions.run? hrun
  exact ⟨m', final', hm', hrun', hsteps, hvisited, hfinal.printed_eq, hfinal.cursor_eq,
    hfinal.position_eq, hfinal.memory_eq⟩

/-- A loop that counts down from two, on two cells and on four. -/
theorem exists_run?_of_cells_le_countdown :
    ∃ (p : Program) (m final : Machine 2) (m' final' : Machine 4),
      Program.ofText
        "print\ndecrement pointer by 1\nless compare between 1 0\nmin instruction pointer 3\nexit" =
          .ok p ∧
      Machine.prepare p ⟨2, [2]⟩ = .ok m ∧ 2 ≤ 4 ∧
      ({ program := p, machine := m } : Session 2).run? 8 = some (.ok final) ∧
      Machine.prepare p ⟨4, [2]⟩ = .ok m' ∧
      ({ program := p, machine := m' } : Session 4).run? 8 = some (.ok final') ∧
      (({ program := p, machine := m' } : Session 4).advance 8).steps = 7 ∧
      ({ program := p, machine := m' } : Session 4).visited 8 = [1, 2, 3, 4, 1, 2, 3, 5] ∧
      final'.printed = #[2, 1] ∧ final'.cursor.val = 0 ∧ final'.position = 4 ∧
      final'.memory.toList = [0, 0] ++ List.replicate (4 - 2) 0 := by
  let p : Program :=
    ⟨[⟨1, [], .print⟩, ⟨2, ["1"], .update .subtract 1⟩, ⟨3, ["1", "0"], .compare .less 1 0⟩,
      ⟨4, ["3"], .jumpBy .backward 3⟩, ⟨5, [], .exit⟩], []⟩
  let m : Machine 2 := ⟨#v[2, 0], 0, 0, [], #[]⟩
  let final : Machine 2 := ⟨#v[0, 0], 0, 4, [], #[2, 1]⟩
  have hm : Machine.prepare p ⟨2, [2]⟩ = .ok m := by rfl
  have hrun : ({ program := p, machine := m } : Session 2).run? 8 = some (.ok final) := by
    decide +kernel
  have hle : 2 ≤ 4 := by decide
  obtain ⟨m', final', hm', hrun', hsteps, hvisited, hprinted, hcursor, hposition, hmemory⟩ :=
    exists_run?_of_cells_le hm hle hrun
  have hseven : (({ program := p, machine := m } : Session 2).advance 8).steps = 7 := by
    decide +kernel
  have height : ({ program := p, machine := m } : Session 2).visited 8 =
      [1, 2, 3, 4, 1, 2, 3, 5] := by
    decide +kernel
  exact ⟨p, m, final, m', final', by rfl, hm, hle, hrun, hm', hrun', hsteps.trans hseven,
    hvisited.trans height, hprinted, hcursor, hposition, hmemory⟩

end Session

end CursorMachine
