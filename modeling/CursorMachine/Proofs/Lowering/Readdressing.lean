import CursorMachine.Proofs.Lowering.Checks
import CursorMachine.Proofs.Running.Items

/-!
# Jumps by distance and jumps by line

A jump names its target by a distance or by a line number. Main statement: it does not matter which
(`Program.exists_readdressed`). Rewrite any of a program's relative jumps with the line that they
lead to; the program has the same regions and the same entry, runs through the same machines to the
same end, and is lowered to the same code or refused with the same error.

Both sides work out a target in a way of their own. A run counts places from zero, goes to the place
before the target and adds one, each sum staying at `farthest`; lowering counts lines from one. For
`Instruction.absolute?` to be the same jump, the three must come to the same line, which is
`Instruction.exists_travel_of_absolute?` for lines and `saturate_travel_index` for places.
-/

namespace CursorMachine

/-! ### Jumps -/

namespace Instruction

variable {line : Nat} {i i' : Instruction}

/-- The jump by line number that a relative jump on a line stands for. There is none past
`farthest`, and none to before line zero. -/
def absolute? (line : Nat) : Instruction → Option Instruction
  | .jumpBy .forward n =>
    if (line + n : Int) ≤ farthest then some (.jumpTo (line + n)) else none
  | .jumpBy .backward n => if n ≤ line then some (.jumpTo (line - n)) else none
  | _ => none

/-- **A jump by line number names the line that the relative jump leads to.** -/
theorem exists_travel_of_absolute? (h : i.absolute? line = some i') :
    ∃ d n target, i = .jumpBy d n ∧ i' = .jumpTo target ∧ d.travel line n = (target : Int) := by
  unfold absolute? at h
  split at h
  next n =>
    split at h
    next hle =>
      cases h
      exact ⟨.forward, n, line + n, rfl, rfl, by simpa [Direction.travel] using saturate_of_le hle⟩
    next => cases h
  next n =>
    split at h
    next hle =>
      cases h
      exact ⟨.backward, n, line - n, rfl, rfl, by simp only [Direction.travel]; omega⟩
    next => cases h
  next => cases h

/-- Both jumps are lowered to a branch to the same label. -/
theorem lowerInstruction_of_absolute? (size : Nat) (h : i.absolute? line = some i') :
    Arm.lowerInstruction size line i' = Arm.lowerInstruction size line i := by
  unfold absolute? at h
  split at h
  next =>
    split at h
    next =>
      cases h
      rfl
    next => cases h
  next =>
    split at h
    next =>
      cases h
      rfl
    next => cases h
  next => cases h

end Instruction

/-! ### Statements -/

/-- The same statement, or one with its relative jump written with the line that it leads to. How
its parameters are written does not matter. -/
structure Statement.Readdresses (s s' : Statement) : Prop where
  line_eq : s'.line = s.line
  instruction_eq : s'.instruction = s.instruction ∨
    s.instruction.absolute? s.line = some s'.instruction

namespace Statement.Readdresses

variable {s s' : Statement} (h : s.Readdresses s')

include h

theorem sameBounds : s.SameBounds s' where
  line_eq := h.line_eq
  opening?_eq := by
    rcases h.instruction_eq with heq | habs
    · simp only [opening?, heq, h.line_eq]
    · obtain ⟨d, n, target, hi, hi', -⟩ := Instruction.exists_travel_of_absolute? habs
      simp only [opening?, hi, hi']
  close_iff := by
    rcases h.instruction_eq with heq | habs
    · rw [heq]
    · obtain ⟨d, n, target, hi, hi', -⟩ := Instruction.exists_travel_of_absolute? habs
      simp only [hi, hi', reduceCtorEq]

theorem exit_iff : s'.instruction = .exit ↔ s.instruction = .exit := by
  rcases h.instruction_eq with heq | habs
  · rw [heq]
  · obtain ⟨d, n, target, hi, hi', -⟩ := Instruction.exists_travel_of_absolute? habs
    simp only [hi, hi', reduceCtorEq]

/-- **Both are carried out alike**, by any machine. -/
theorem attempt_eq {size : Nat} (hline : 1 ≤ s.line) (m : Machine size) (length : Nat) :
    m.attempt length s' = m.attempt length s := by
  rcases h.instruction_eq with heq | habs
  · have heffect : m.effect s' = m.effect s := by
      simp only [Machine.effect, Statement.index, heq, h.line_eq]
    rw [Machine.attempt, Machine.attempt, heffect]
  · obtain ⟨d, n, target, hi, hi', htravel⟩ := Instruction.exists_travel_of_absolute? habs
    have heffect : m.effect s = .ok (m, d.travel s.index n) := by rw [Machine.effect, hi]
    have heffect' : m.effect s' = .ok (m, (target : Int) - 1) := by rw [Machine.effect, hi']
    have hland : saturate ((target : Int) - 1 + 1) = saturate (d.travel s.index n + 1) := by
      rw [Int.sub_add_cancel, ← htravel, Statement.index, saturate_travel_index hline]
    rw [Machine.attempt, Machine.attempt, heffect, heffect']
    dsimp only
    rw [hland]

/-- Both pass their check, or fail it with the same error. -/
theorem check_eq (layout : Arm.Layout) (length : Nat) :
    s'.check layout length = s.check layout length := by
  rcases h.instruction_eq with heq | habs
  · simp only [check, heq, h.line_eq]
  · obtain ⟨d, n, target, hi, hi', htravel⟩ := Instruction.exists_travel_of_absolute? habs
    simp only [check, hi, hi', htravel]

/-- Both are lowered to the same code, but for the remark. -/
theorem lowerStatement_eq (size : Nat) :
    Arm.lowerStatement size false s' = Arm.lowerStatement size false s := by
  have hcode : Arm.lowerInstruction size s.line s'.instruction =
      Arm.lowerInstruction size s.line s.instruction := by
    rcases h.instruction_eq with heq | habs
    · rw [heq]
    · exact Instruction.lowerInstruction_of_absolute? size habs
  simp only [Arm.lowerStatement, Arm.remark, h.line_eq, hcode, Bool.false_eq_true, if_false]

end Statement.Readdresses

/-! ### Programs -/

/-- A program with some of its relative jumps written with the lines that they lead to. -/
structure Program.Readdresses (p p' : Program) : Prop where
  statements : List.Forall₂ Statement.Readdresses p.statements p'.statements
  regions_eq : p'.regions = p.regions

namespace Program.Readdresses

variable {p p' : Program} (h : p.Readdresses p')

include h

theorem length_eq : p'.length = p.length :=
  h.statements.length_eq.symm

theorem entry_eq : p'.entry = p.entry := by
  rw [entry, entry, h.regions_eq]

theorem prepare_eq (setup : Setup) : Machine.prepare p' setup = Machine.prepare p setup := by
  rw [Machine.prepare, Machine.prepare, h.regions_eq, h.entry_eq]

theorem statement?_eq_none {i : Nat} (hs : p.statement? i = none) : p'.statement? i = none := by
  rw [statement?_eq_none_iff] at hs ⊢
  rwa [h.length_eq]

/-- **Both programs have the same to carry out** at every place. -/
theorem exists_statement? (hp : p.WellFormed) {i : Nat} {s : Statement}
    (hs : p.statement? i = some s) :
    ∃ s', p'.statement? i = some s' ∧ (s'.instruction = .exit ↔ s.instruction = .exit) ∧
      ∀ {size : Nat} (m : Machine size), m.attempt p'.length s' = m.attempt p.length s := by
  have hline := (hp.statement?_of_mem (mem_of_statement? hs)).1
  obtain ⟨hi, rfl⟩ := statement?_eq_some_iff.1 hs
  have hi' : i < p'.statements.length := h.statements.length_eq ▸ hi
  have hread : p.statements[i].Readdresses p'.statements[i] := h.statements.get hi hi'
  refine ⟨p'.statements[i], List.getElem?_eq_getElem hi', hread.exit_iff, fun m ↦ ?_⟩
  rw [h.length_eq, hread.attempt_eq hline]

/-- What readdressed statements have in common is common to the lists of them. -/
theorem map_eq {β : Type} {f : Statement → β}
    (hf : ∀ {s s' : Statement}, s.Readdresses s' → f s' = f s) :
    p'.statements.map f = p.statements.map f := by
  have heq : List.Forall₂ (· = ·) (p.statements.map f) (p'.statements.map f) := by
    rw [List.forall₂_map_left_iff, List.forall₂_map_right_iff]
    exact h.statements.imp fun _ _ hs ↦ (hf hs).symm
  rw [List.forall₂_eq_eq_eq] at heq
  exact heq.symm

theorem forM_check_eq (layout : Arm.Layout) (length : Nat) :
    p'.statements.forM (fun s ↦ s.check layout length) =
      p.statements.forM fun s ↦ s.check layout length := by
  have hss := h.statements
  generalize p.statements = ss, p'.statements = ss' at hss ⊢
  induction hss with
  | nil => rfl
  | cons hs _ ih => rw [List.forM, List.forM, hs.check_eq, ih]

/-- **Both are lowered to the same code, or refused with the same error.** -/
theorem generate_eq {layout : Arm.Layout} {options : Arm.Options} {inputs : List Cell}
    (hverbose : options.verbose = false) :
    Arm.generate p' layout options inputs = Arm.generate p layout options inputs := by
  have hlower : Arm.lower p' layout options inputs = Arm.lower p layout options inputs := by
    have hmap (ss : List Statement) (f : Nat → List Arm.Line) :
        ss.zipIdx.flatMap (fun v ↦
          f v.2 ++ Arm.lowerStatement layout.size options.verbose v.1) =
        (ss.map (Arm.lowerStatement layout.size false)).zipIdx.flatMap
          fun v ↦ f v.2 ++ v.1 := by
      rw [List.zipIdx_map, List.flatMap_map, hverbose]
      rfl
    simp only [Arm.lower, hmap, h.map_eq fun hs ↦ hs.lowerStatement_eq layout.size,
      h.length_eq]
  simp only [Arm.generate, h.length_eq, h.forM_check_eq, hlower]

end Program.Readdresses

/-! ### Runs -/

namespace Session

variable {size : Nat} {p p' : Program} {s : Session size}

/-- The session with another program. -/
def setProgram (s : Session size) (p : Program) : Session size :=
  { s with program := p }

section Readdressed

variable (hp : p.WellFormed) (h : p.Readdresses p')

include hp h

/-- **Both programs take the same step.** -/
theorem step_setProgram (hs : s.program = p) :
    (s.setProgram p').step = (s.step.1.setProgram p', s.step.2) := by
  subst hs
  have hstatus' : (s.setProgram p').status = s.status := rfl
  have houtcome := s.outcome_step
  generalize s.step = r at houtcome ⊢
  cases houtcome with
  | ended hstatus => rw [step_exited (hstatus'.trans hstatus)]
  | past hstatus hst =>
    rw [step_past (hstatus'.trans hstatus) (h.statement?_eq_none hst)]
    show (_, Except.error (Error.instructionOutOfRange _ p'.length)) = _
    rw [h.length_eq]
    rfl
  | exit hstatus hst hexit =>
    obtain ⟨st', hst', hexit', -⟩ := h.exists_statement? hp hst
    rw [step_exit (hstatus'.trans hstatus) hst' (hexit'.2 hexit)]
    rfl
  | refused hstatus hst hexit hattempt | landed hstatus hst hexit hattempt =>
    obtain ⟨st', hst', hexit', hsame⟩ := h.exists_statement? hp hst
    have hattempt' := (hsame s.machine).trans hattempt
    rw [step_attempt (hstatus'.trans hstatus) hst' (mt hexit'.1 hexit)]
    unfold setProgram
    simp only [hattempt']

theorem after_setProgram (hs : s.program = p) (n : Nat) :
    (s.setProgram p').after n = (s.after n).setProgram p' := by
  induction n generalizing s with
  | zero => rfl
  | succ n ih =>
    rw [after, after, step_setProgram hp h hs]
    exact ih (s.program_step.trans hs)

theorem run?_setProgram (hs : s.program = p) (fuel : Nat) :
    (s.setProgram p').run? fuel = s.run? fuel := by
  induction fuel generalizing s with
  | zero => rfl
  | succ fuel ih =>
    have hprogram := s.program_step.trans hs
    rw [run?, run?, step_setProgram hp h hs]
    rcases hstep : s.step with ⟨t, e | status⟩
    · rfl
    · rw [hstep] at hprogram
      cases status with
      | running => exact ih hprogram
      | exited => rfl

end Readdressed

end Session

/-! ### Readdressing -/

namespace Program

/-- Readdressed statements make up a program, with the same regions. -/
theorem exists_readdresses {text : String} {p : Program} {ss : List Statement}
    (hp : ofText text = .ok p) (hss : List.Forall₂ Statement.Readdresses p.statements ss) :
    ∃ p', ofStatements ss = .ok p' ∧ p'.statements = ss ∧ p.Readdresses p' := by
  obtain ⟨-, hcollected, hexit⟩ := ofText_eq_ok_iff.1 hp
  have hread : p.Readdresses ⟨ss, p.regions⟩ := ⟨hss, rfl⟩
  have hregions : Region.collect [] ss = .ok p.regions :=
    (Region.collect_congr (hss.imp fun _ _ hs ↦ hs.sameBounds) []).trans hcollected
  have hexit' : ss.any (·.instruction == .exit) = true := by
    have hmap := hread.map_eq (f := (·.instruction == .exit)) fun hs ↦ by
      rw [Bool.eq_iff_iff, beq_iff_eq, beq_iff_eq]
      exact hs.exit_iff
    have hany (ss : List Statement) :
        (ss.map (·.instruction == .exit)).any id = ss.any (·.instruction == .exit) := by
      rw [List.any_map]
      rfl
    rw [← hany, hmap, hany, hexit]
  exact ⟨⟨ss, p.regions⟩, bind_eq_ok_iff.2 ⟨p.regions, hregions, if_pos hexit'⟩, rfl, hread⟩

/-- **Jumps by distance and jumps by line are interchangeable.** Rewrite any of the relative jumps
of a program that was read as jumps to the lines that they lead to. The statements make up a program
again, with the same regions and the same entry. On every machine both programs take the same steps,
through the same machines, to the same end, and lowering without remarks gives the same code or the
same error. -/
theorem exists_readdressed {text : String} {p : Program} {ss : List Statement}
    (hp : ofText text = .ok p) (hss : List.Forall₂ Statement.Readdresses p.statements ss) :
    ∃ p', ofStatements ss = .ok p' ∧ p'.statements = ss ∧ p'.regions = p.regions ∧
      p'.entry = p.entry ∧ (∀ setup, Machine.prepare p' setup = Machine.prepare p setup) ∧
      (∀ {size : Nat} (m : Machine size),
        let s : Session size := { program := p, machine := m }
        let s' : Session size := { program := p', machine := m }
        (∀ n, (s'.after n).machine = (s.after n).machine ∧
          (s'.after n).status = (s.after n).status ∧ (s'.after n).steps = (s.after n).steps ∧
          (s'.after n).step.2 = (s.after n).step.2) ∧
        ∀ fuel, s'.run? fuel = s.run? fuel) ∧
      ∀ layout options inputs, options.verbose = false →
        Arm.generate p' layout options inputs = Arm.generate p layout options inputs := by
  have hwf := wellFormed_of_ofText hp
  obtain ⟨p', hp', hstatements, h⟩ := exists_readdresses hp hss
  refine ⟨p', hp', hstatements, h.regions_eq, h.entry_eq, h.prepare_eq, fun {size} m ↦ ?_,
    fun layout options inputs hverbose ↦ h.generate_eq hverbose⟩
  intro s s'
  refine ⟨fun n ↦ ?_, Session.run?_setProgram hwf h (s := s) rfl⟩
  have hafter : s'.after n = (s.after n).setProgram p' :=
    Session.after_setProgram hwf h (s := s) rfl n
  have hstep := Session.step_setProgram hwf h (s.program_after n)
  rw [hafter, hstep]
  exact ⟨rfl, rfl, rfl, rfl⟩

/-- A jump over `exit` that is rewritten, a jump back that is not, and a jump to before the first
line, which is refused as line zero either way. -/
theorem exists_readdressed_back :
    ∃ (p p' : Program) (ss : List Statement),
      ofText
        "plus instruction pointer 2\nexit\nmin instruction pointer\nmin instruction pointer 4" =
        .ok p ∧
      ss = [⟨1, ["3"], .jumpTo 3⟩, ⟨2, [], .exit⟩, ⟨3, [], .jumpBy .backward 1⟩,
        ⟨4, ["0"], .jumpTo 0⟩] ∧
      List.Forall₂ Statement.Readdresses p.statements ss ∧ ofStatements ss = .ok p' ∧
      p'.regions = p.regions ∧ p'.entry = p.entry ∧
      (∀ (m : Machine 1) fuel, ({ program := p', machine := m } : Session 1).run? fuel =
        ({ program := p, machine := m } : Session 1).run? fuel) ∧
      (∀ m : Machine 1, ({ program := p', machine := m } : Session 1).step.2 =
        ({ program := p, machine := m } : Session 1).step.2) ∧
      Arm.generate p ⟨1, 0, []⟩ {} [] = .error (.instructionOutOfRange 0 4) ∧
      Arm.generate p' ⟨1, 0, []⟩ {} [] = .error (.instructionOutOfRange 0 4) := by
  let p : Program := ⟨[⟨1, ["2"], .jumpBy .forward 2⟩, ⟨2, [], .exit⟩, ⟨3, [], .jumpBy .backward 1⟩,
    ⟨4, ["4"], .jumpBy .backward 4⟩], []⟩
  have hp : ofText
      "plus instruction pointer 2\nexit\nmin instruction pointer\nmin instruction pointer 4" =
      .ok p := by
    rfl
  have hss : List.Forall₂ Statement.Readdresses p.statements
      [⟨1, ["3"], .jumpTo 3⟩, ⟨2, [], .exit⟩, ⟨3, [], .jumpBy .backward 1⟩,
        ⟨4, ["0"], .jumpTo 0⟩] :=
    .cons ⟨rfl, .inr rfl⟩ (.cons ⟨rfl, .inl rfl⟩
      (.cons ⟨rfl, .inl rfl⟩ (.cons ⟨rfl, .inr rfl⟩ .nil)))
  obtain ⟨p', hp', -, hregions, hentry, -, hruns, hlower⟩ := exists_readdressed hp hss
  have herror : Arm.generate p ⟨1, 0, []⟩ {} [] = .error (.instructionOutOfRange 0 4) := by rfl
  exact ⟨p, p', _, hp, rfl, hss, hp', hregions, hentry, fun m ↦ (hruns m).2,
    fun m ↦ ((hruns m).1 0).2.2.2, herror, (hlower _ _ _ rfl).trans herror⟩

end Program

end CursorMachine
