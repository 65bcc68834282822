import CursorMachine.Proofs.Lowering.Checks

/-!
# Errors and the stages that raise them

`Error.isSyntax` is one list of causes; the errors are raised in many places. Main statement:
reading a program fails with errors of the list only, and preparing, running and lowering fail with
errors outside of it only (`Error.isSyntax_of_stage`). So the class of an error tells its stage,
whatever the rows, the machine and the state of the run.

`FailsAs` bounds the errors of a computation by their class. It passes through sequences, so each
reader and each check has one short lemma from those it calls.
-/

namespace CursorMachine

/-- The errors of a computation are all found in the text of a program (`true`), or none of them is
(`false`). -/
def FailsAs {α : Type} (syntactic : Bool) (x : Except Error α) : Prop :=
  ∀ e, x = .error e → e.isSyntax = syntactic

namespace FailsAs

variable {α β : Type} {b : Bool} {e : Error} {x : Except Error α} {f : α → Except Error β}

theorem ok (a : α) : FailsAs b (.ok a) := nofun

theorem error (h : e.isSyntax = b) : FailsAs b (.error e : Except Error α) := by
  rintro _ ⟨⟩
  exact h

theorem bind (hx : FailsAs b x) (hf : ∀ a, FailsAs b (f a)) : FailsAs b (x >>= f) := by
  intro e he
  rcases bind_eq_error_iff.1 he with hfirst | ⟨a, -, hsecond⟩
  · exact hx e hfirst
  · exact hf a e hsecond

theorem ite {c : Prop} [Decidable c] {y : Except Error α} (hx : FailsAs b x) (hy : FailsAs b y) :
    FailsAs b (if c then x else y) := by
  split
  · exact hx
  · exact hy

theorem discard (hx : FailsAs b x) : FailsAs b (discard x) :=
  fun e he ↦ hx e (discard_eq_error_iff.1 he)

theorem forM {l : List α} {f : α → Except Error Unit} (hf : ∀ a, FailsAs b (f a)) :
    FailsAs b (l.forM f) := by
  intro e he
  obtain ⟨i, hi, herror, -⟩ := forM_eq_error_iff.1 he
  exact hf l[i] e herror

end FailsAs

/-! ### Reading -/

namespace Instruction

variable (line : Nat) (text : String)

theorem failsAs_number : FailsAs true (number line text) := by
  unfold number
  split
  · exact .ok _
  · exact .error rfl

theorem failsAs_address : FailsAs true (address line text) :=
  (failsAs_number line text).bind fun _ ↦ .ite (.ok _) (.error rfl)

theorem failsAs_value : FailsAs true (value line text) :=
  (failsAs_number line text).bind fun _ ↦ .ite (.ok _) (.error rfl)

theorem failsAs_valueAmount : FailsAs true (valueAmount line text) :=
  (failsAs_value line text).bind fun _ ↦ .ite (.ok _) (.error rfl)

theorem failsAs_moveAmount : FailsAs true (moveAmount line text) :=
  (failsAs_number line text).bind fun _ ↦ .ite (.ok _) (.error rfl)

theorem failsAs_functionName : FailsAs true (functionName line text) :=
  .ite (.ok _) (.error rfl)

theorem failsAs_decode (k : Keyword) (params : List String) :
    FailsAs true (decode k line params) := by
  unfold decode
  split
  -- no parameter
  case h_1 | h_5 | h_8 | h_10 | h_12 => exact .ok _
  -- the amount of a move
  case h_2 | h_6 => exact (failsAs_moveAmount line _).bind fun _ ↦ .ok _
  -- an address or a line
  case h_3 | h_4 | h_7 => exact (failsAs_address line _).bind fun _ ↦ .ok _
  -- the name of a function
  case h_9 | h_11 => exact (failsAs_functionName line _).bind fun _ ↦ .ok _
  case h_13 =>
    exact (failsAs_address line _).bind fun _ ↦ (failsAs_address line _).bind fun _ ↦ .ok _
  case h_14 => exact (failsAs_value line _).bind fun _ ↦ .ok _
  case h_15 => exact (failsAs_valueAmount line _).bind fun _ ↦ .ok _
  -- the wrong number of parameters
  case h_16 => exact .error rfl

end Instruction

theorem Statement.failsAs_ofTokens (head : Token) (params : List Token) :
    FailsAs true (Statement.ofTokens head params) := by
  unfold Statement.ofTokens
  split
  · exact .error rfl
  · exact (Instruction.failsAs_decode _ _ _).bind fun _ ↦ .ok _

theorem Region.failsAs_ofOpening (taken : List String) (line : Nat) (name : String)
    (rest : List Statement) : FailsAs true (Region.ofOpening taken line name rest) := by
  unfold Region.ofOpening
  split
  · exact .error rfl
  · split
    · exact .error rfl
    · exact .error rfl
    · exact .ite (.error rfl) (.ok _)

theorem Region.failsAs_collect (taken : List String) (ss : List Statement) :
    FailsAs true (Region.collect taken ss) := by
  induction ss generalizing taken with
  | nil => exact .ok _
  | cons s ss ih =>
    unfold Region.collect
    split
    · exact (failsAs_ofOpening _ _ _ _).bind fun _ ↦ (ih _).bind fun _ ↦ .ok _
    · exact ih _

namespace Program

theorem failsAs_readStatements (rows : List (List Token)) : FailsAs true (readStatements rows) := by
  induction rows with
  | nil => exact .ok _
  | cons row rows ih =>
    rcases row with - | ⟨head, params⟩
    · exact ih
    · exact (Statement.failsAs_ofTokens head params).bind fun _ ↦ ih.bind fun _ ↦ .ok _

/-- **Reading a program fails with errors of the text only.** -/
theorem failsAs_ofRows (rows : List (List Token)) : FailsAs true (ofRows rows) :=
  (failsAs_readStatements rows).bind fun _ ↦
    (Region.failsAs_collect _ _).bind fun _ ↦ .ite (.ok _) (.error rfl)

end Program

/-! ### Preparing and running -/

theorem failsAs_checkAddress (line : Nat) (address : Int) (size : Nat) :
    FailsAs false (checkAddress line address size) := by
  unfold checkAddress
  split
  · exact .ok _
  · exact .error rfl

theorem failsAs_checkTarget (target : Int) (length : Nat) :
    FailsAs false (checkTarget target length) :=
  .ite (.ok _) (.error rfl)

namespace Machine

/-- **Preparing fails with no error of the text.** -/
theorem failsAs_prepare (p : Program) (setup : Setup) : FailsAs false (prepare p setup) := by
  refine FailsAs.bind ?_ fun _ ↦ .ok _
  unfold blank
  split
  · exact .error rfl
  · exact .ite (.error rfl) (.ok _)

variable {size : Nat}

theorem failsAs_effect (s : Statement) (m : Machine size) : FailsAs false (m.effect s) := by
  unfold effect
  dsimp only
  split
  case h_1 | h_2 | h_3 => exact (failsAs_checkAddress _ _ _).bind fun _ ↦ .ok _
  case h_10 =>
    split
    · exact .ok _
    · exact .error rfl
  case h_11 =>
    exact (failsAs_checkAddress _ _ _).bind fun _ ↦ (failsAs_checkAddress _ _ _).bind fun _ ↦ .ok _
  all_goals exact .ok _

theorem isSyntax_of_attempt {m : Machine size} {length : Nat} {s : Statement} {e : Error}
    (h : (m.attempt length s).error? = some e) : e.isSyntax = false := by
  rcases m.attempt_cases length s with
    ⟨e', heffect, hattempt⟩ | ⟨m', next, e', -, hland, hattempt⟩ |
      ⟨m', next, line, -, -, hattempt⟩ <;>
    rw [hattempt] at h <;> cases h
  · exact m.failsAs_effect s _ heffect
  · exact failsAs_checkTarget _ _ _ hland

end Machine

namespace Session

variable {size : Nat}

/-- **A step fails with no error of the text**, whatever the session. -/
theorem failsAs_step (s : Session size) : FailsAs false s.step.2 := by
  have houtcome := s.outcome_step
  generalize s.step = r at houtcome ⊢
  cases houtcome with
  | ended | exit | landed => exact .ok _
  | past => exact .error rfl
  | @refused st machine e h hst hexit hattempt =>
    have herror : (s.machine.attempt s.program.length st).error? = some e := by rw [hattempt]
    exact .error (Machine.isSyntax_of_attempt herror)

theorem failsAs_next {s : Session size} {item : Except Error (Machine size)}
    (h : s.next.2 = some item) : FailsAs false item := by
  have hstep := s.failsAs_step
  unfold next at h
  split at h
  · cases h
  · split at h
    next heq =>
      cases h
      exact .ok _
    next heq =>
      rw [heq] at hstep
      cases h
      exact .error (hstep _ rfl)

theorem failsAs_run? {fuel : Nat} {s : Session size} {r : Except Error (Machine size)}
    (h : s.run? fuel = some r) : FailsAs false r := by
  induction fuel generalizing s with
  | zero => cases h
  | succ fuel ih =>
    have hstep := s.failsAs_step
    unfold run? at h
    split at h
    next heq =>
      rw [heq] at hstep
      cases h
      exact .error (hstep _ rfl)
    next =>
      cases h
      exact .ok _
    next => exact ih h

end Session

/-! ### Lowering -/

theorem Statement.failsAs_check (layout : Arm.Layout) (length : Nat) (s : Statement) :
    FailsAs false (s.check layout length) := by
  have haddress := fun a ↦ (failsAs_checkAddress s.line a layout.size).discard
  have htarget := fun t ↦ (failsAs_checkTarget t length).discard
  unfold Statement.check
  split
  case h_1 | h_2 => exact haddress _
  case h_3 | h_4 => exact htarget _
  case h_5 =>
    exact (haddress _).bind fun _ ↦ (haddress _).bind fun _ ↦ (htarget _).bind fun _ ↦ htarget _
  case h_6 => exact .ite (.ok _) (.error rfl)
  all_goals exact .ok _

/-- **Lowering fails with no error of the text.** -/
theorem Arm.failsAs_generate (p : Program) (layout : Layout) (options : Options)
    (inputs : List Cell) : FailsAs false (generate p layout options inputs) := by
  unfold generate
  dsimp only
  split
  · exact .error rfl
  · split
    · exact .error rfl
    · split
      · exact .error rfl
      · exact FailsAs.bind (.forM fun s ↦ s.failsAs_check _ _) fun _ ↦ .ok _

/-! ### All stages -/

/-- **The class of an error tells the stage that raised it.** Reading a program, from whatever rows,
fails with errors of the text only. Preparing a machine for a program, a step, an item or a run of a
session, wherever it stands, and lowering never fail with one. -/
theorem Error.isSyntax_of_stage :
    (∀ (rows : List (List Token)) (e : Error), Program.ofRows rows = .error e → e.isSyntax = true) ∧
      (∀ (p : Program) (setup : Setup) (e : Error),
        Machine.prepare p setup = .error e → e.isSyntax = false) ∧
      (∀ (size : Nat) (s : Session size) (e : Error),
        s.step.2 = .error e ∨ s.next.2 = some (.error e) ∨
          (∃ fuel, s.run? fuel = some (.error e)) → e.isSyntax = false) ∧
      ∀ (p : Program) (layout : Arm.Layout) (options : Arm.Options) (inputs : List Cell)
        (e : Error), Arm.generate p layout options inputs = .error e → e.isSyntax = false := by
  refine ⟨Program.failsAs_ofRows, Machine.failsAs_prepare, fun size s e he ↦ ?_,
    Arm.failsAs_generate⟩
  rcases he with hstep | hnext | ⟨fuel, hrun⟩
  · exact s.failsAs_step e hstep
  · exact Session.failsAs_next hnext e rfl
  · exact Session.failsAs_run? hrun e rfl

/-- A row without a keyword, a machine without a cell, a move below the first cell after a value was
printed, met by a step, by an item and by a run, and an entry that is no name. -/
theorem Error.isSyntax_of_stage_each :
    ∃ (p : Program) (m : Machine 1) (s : Session 1),
      Program.ofText "print\nmin memory pointer\nexit" = .ok p ∧
      Machine.prepare p { cells := 1 } = .ok m ∧ s = { program := p, machine := m } ∧
      Program.ofRows [[Token.literal 1 "memory"]] = .error (.unknownInstruction 1 "memory") ∧
      (Error.unknownInstruction 1 "memory").isSyntax = true ∧
      Machine.prepare p { cells := 0 } = .error .invalidMemorySize ∧
      Error.invalidMemorySize.isSyntax = false ∧
      s.step.1.step.2 = .error (.memoryOutOfRange 2 (-1) 1) ∧
      s.next.1.next.2 = some (.error (.memoryOutOfRange 2 (-1) 1)) ∧
      s.run? 2 = some (.error (.memoryOutOfRange 2 (-1) 1)) ∧
      (Error.memoryOutOfRange 2 (-1) 1).isSyntax = false ∧
      Arm.generate p m.layout { entry := "1" } [] = .error (.invalidEntryName "1") ∧
      (Error.invalidEntryName "1").isSyntax = false := by
  let p : Program := ⟨[⟨1, [], .print⟩, ⟨2, [], .moveBy .backward 1⟩, ⟨3, [], .exit⟩], []⟩
  let m : Machine 1 := ⟨#v[0], 0, 0, [], #[]⟩
  let s : Session 1 := { program := p, machine := m }
  obtain ⟨hread, hprepare, hrun, hlower⟩ := Error.isSyntax_of_stage
  have hrows : Program.ofRows [[Token.literal 1 "memory"]] =
      .error (.unknownInstruction 1 "memory") := by
    rfl
  have hcells : Machine.prepare p { cells := 0 } = .error .invalidMemorySize := by rfl
  have hstep : s.step.1.step.2 = .error (.memoryOutOfRange 2 (-1) 1) := by rfl
  have hentry : Arm.generate p m.layout { entry := "1" } [] = .error (.invalidEntryName "1") := by
    rfl
  exact ⟨p, m, s, by rfl, by rfl, rfl, hrows, hread _ _ hrows, hcells, hprepare _ _ _ hcells, hstep,
    by rfl, by rfl, hrun 1 s.step.1 _ (.inl hstep), hentry, hlower _ _ _ _ _ hentry⟩

end CursorMachine
