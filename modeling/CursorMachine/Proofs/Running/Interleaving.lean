import CursorMachine.Proofs.Running.Calls
import CursorMachine.Proofs.Running.Items

/-!
# Calls in any order

`step` and `next` may be called on one session in turn. They share the machine, the status, the
count of steps and the mark that `next` has failed, and the mark holds back `next` but not `step`.
Main statement: none of this shows (`Session.calls_along_run`). Whatever the calls, the session is
somewhere on the run of its program. Its machine is the one that the counted number of statements
leads to, it has ended exactly when a call found it on `exit`, and what is left of the run gives
what the whole run gives.

The invariant is `Session.AlongRun`. It rests on failed steps being without effect: `next` has
failed only where every step fails, so the mark never holds back a call that could go on
(`Session.AlongRun.step_cases`).
-/

namespace CursorMachine

namespace Machine

variable {size : Nat} {p : Program} {m m₁ m₂ : Machine size}

/-- A number of statements, each found at the position and each landing, lead from the machine to
another. `exit` is not carried out. -/
inductive Executes (p : Program) (m : Machine size) : Nat → Machine size → Prop
  | start : Executes p m 0 m
  | step {k : Nat} {m₁ m₂ : Machine size} {st : Statement} (h : Executes p m k m₁)
      (hst : p.statement? m₁.position = some st) (hexit : st.instruction ≠ .exit)
      (hattempt : m₁.attempt p.length st = ⟨m₂, none⟩) : Executes p m (k + 1) m₂

/-- A number of statements leads to one machine only. -/
theorem Executes.unique {k : Nat} (h₁ : m.Executes p k m₁) (h₂ : m.Executes p k m₂) : m₁ = m₂ := by
  induction h₁ generalizing m₂ with
  | start =>
    cases h₂
    rfl
  | step _ hst _ hattempt ih =>
    rcases h₂ with - | ⟨h₂, hst₂, -, hattempt₂⟩
    obtain rfl := ih h₂
    obtain rfl : _ = _ := Option.some.inj (hst.symm.trans hst₂)
    exact congrArg Attempt.machine (hattempt.symm.trans hattempt₂)

end Machine

namespace Session

variable {size : Nat} {p : Program} {m : Machine size} {s t : Session size}
  {r : Except Error (Machine size)}

/-! ### Calls -/

/-- The two ways to call a session. -/
inductive Call where
  | step
  | next
  deriving DecidableEq, Repr

/-- The session after a call. -/
def call (s : Session size) : Call → Session size
  | .step => s.step.1
  | .next => s.next.1

/-- The session after a number of calls, in order. -/
def calls (s : Session size) (cs : List Call) : Session size :=
  cs.foldl call s

theorem calls_append (s : Session size) (cs ds : List Call) :
    s.calls (cs ++ ds) = (s.calls cs).calls ds :=
  List.foldl_append

/-- The next statement to run is `exit`. -/
def StandsOnExit (s : Session size) : Prop :=
  ∃ st, s.program.statement? s.machine.position = some st ∧ st.instruction = .exit

/-- A step on `exit` ends the session, and is without effect on one that has ended. -/
theorem step_of_standsOnExit (h : s.StandsOnExit) :
    s.step = ({ s with status := .exited }, .ok .exited) := by
  obtain ⟨st, hst, hexit⟩ := h
  rcases hstatus : s.status with - | -
  · exact step_exit hstatus hst hexit
  · rw [step_exited hstatus, ← hstatus]

theorem not_standsOnExit {e : Error} (he : s.step.2 = .error e) : ¬s.StandsOnExit := by
  intro hexit
  rw [step_of_standsOnExit hexit] at he
  cases he

/-! ### Runs from where a session stands -/

/-- The run from here ends, and gives this machine or this error. -/
def RunsTo (s : Session size) (r : Except Error (Machine size)) : Prop :=
  ∃ fuel, s.run? fuel = some r

/-- A run does not look at whether `next` has failed. -/
theorem runsTo_setFailed (s : Session size) (b : Bool) :
    RunsTo { s with failed := b } r ↔ s.RunsTo r := by
  suffices ∀ fuel, ({ s with failed := b } : Session size).run? fuel = s.run? fuel by
    simp only [RunsTo, this]
  intro fuel
  induction fuel generalizing s with
  | zero => rfl
  | succ fuel ih =>
    rw [run?, run?, step_setFailed]
    rcases s.step with ⟨t, e | status⟩
    · rfl
    · cases status with
      | running => exact ih t
      | exited => rfl

/-- The run from `exit` ends at once, also when the session has ended there. -/
theorem runsTo_of_standsOnExit (h : s.StandsOnExit) : s.RunsTo r ↔ r = .ok s.machine := by
  have hrun (fuel : Nat) : s.run? (fuel + 1) = some (.ok s.machine) := by
    rw [run?, step_of_standsOnExit h]
  constructor
  · rintro ⟨fuel, hfuel⟩
    rcases fuel with - | fuel
    · cases hfuel
    · exact (Option.some.inj ((hrun fuel).symm.trans hfuel)).symm
  · rintro rfl
    exact ⟨1, hrun 0⟩

/-- A step that goes on does not change what the run comes to. -/
theorem runsTo_of_step_running (h : s.step = (t, .ok .running)) : t.RunsTo r ↔ s.RunsTo r := by
  have hrun (fuel : Nat) : s.run? (fuel + 1) = t.run? fuel := by
    rw [run?, h]
  constructor
  · rintro ⟨fuel, hfuel⟩
    exact ⟨fuel + 1, (hrun fuel).trans hfuel⟩
  · rintro ⟨fuel, hfuel⟩
    rcases fuel with - | fuel
    · cases hfuel
    · exact ⟨fuel, (hrun fuel).symm.trans hfuel⟩

/-! ### Along the run -/

/-- The session is on the run of a program from a machine. The machine is the one that the counted
number of statements leads to, an end is an end on `exit`, and `next` has failed only where every
step fails. -/
structure AlongRun (p : Program) (m : Machine size) (s : Session size) : Prop where
  follows : s.Follows p p.table
  executes : m.Executes p s.steps s.machine
  standsOnExit : s.status = .exited → s.StandsOnExit
  step_eq_error : s.failed = true → ∃ e, s.step = (s, .error e)

namespace AlongRun

variable (h : s.AlongRun p m)

include h

theorem failed_eq_false {status : Status} (hok : s.step.2 = .ok status) : s.failed = false := by
  by_contra hfailed
  obtain ⟨e, hstep⟩ := h.step_eq_error (by simpa using hfailed)
  rw [hstep] at hok
  cases hok

theorem ended (hexit : s.StandsOnExit) : AlongRun p m { s with status := .exited } where
  follows := ⟨h.follows.program_eq, h.follows.functions_eq, h.follows.position_le⟩
  executes := h.executes
  standsOnExit _ := hexit
  step_eq_error hfailed := by
    cases hfailed.symm.trans (h.failed_eq_false (congrArg Prod.snd (step_of_standsOnExit hexit)))

theorem setFailed {e : Error} (hstep : s.step = (s, .error e)) :
    AlongRun p m { s with failed := true } where
  follows := ⟨h.follows.program_eq, h.follows.functions_eq, h.follows.position_le⟩
  executes := h.executes
  standsOnExit := h.standsOnExit
  step_eq_error _ := ⟨e, by rw [step_setFailed, hstep]⟩

/-- **What a step does along the run.** It fails without a change, or ends the session on `exit`, or
carries out one more statement, and then `next` has not failed. -/
theorem step_cases (hp : p.WellFormed) :
    (∃ e, s.step = (s, .error e)) ∨
      (s.StandsOnExit ∧ s.step = ({ s with status := .exited }, .ok .exited)) ∨
      ∃ t, s.step = (t, .ok .running) ∧ t.status = .running ∧ t.AlongRun p m := by
  have hstep : ∀ e, s.step.2 = .error e → s.step = (s, .error e) :=
    fun _ he ↦ step_eq_of_error hp h.follows he
  have hfailed := @h.failed_eq_false
  have hfollows := h.follows.step
  have houtcome := s.outcome_step
  generalize s.step = r at houtcome hstep hfailed hfollows ⊢
  cases houtcome with
  | past | refused => exact .inl ⟨_, hstep _ rfl⟩
  | ended hended => exact .inr (.inl ⟨h.standsOnExit hended, by rw [← hended]⟩)
  | exit _ hst hexit => exact .inr (.inl ⟨⟨_, hst, hexit⟩, rfl⟩)
  | landed hstatus hst hexit hattempt =>
    refine .inr (.inr ⟨_, rfl, hstatus, hfollows, ?_, fun hended ↦ ?_, fun hfail ↦ ?_⟩)
    · rw [h.follows.program_eq] at hst hattempt
      exact h.executes.step hst hexit hattempt
    · cases hstatus.symm.trans hended
    · cases (hfailed rfl).symm.trans hfail

end AlongRun

/-- What a call comes to along the run: nothing but the mark that `next` has failed is changed, or
the session ends on `exit`, or a step is taken that goes on. -/
inductive Called (p : Program) (m : Machine size) (s : Session size) : Session size → Prop where
  | held (hexit : ¬s.StandsOnExit) (b : Bool) (h : AlongRun p m { s with failed := b }) :
      Called p m s { s with failed := b }
  | ended (hexit : s.StandsOnExit) : Called p m s { s with status := .exited }
  | went {t : Session size} (hstep : s.step = (t, .ok .running)) (hstatus : t.status = .running)
      (h : t.AlongRun p m) : Called p m s t

theorem AlongRun.called (h : s.AlongRun p m) (hp : p.WellFormed) (c : Call) :
    Called p m s (s.call c) := by
  have hcases := h.step_cases hp
  cases c with
  | step =>
    show Called p m s s.step.1
    rcases hcases with ⟨e, hstep⟩ | ⟨hexit, hstep⟩ | ⟨t, hstep, hstatus, ht⟩
    · rw [hstep]
      exact .held (not_standsOnExit (congrArg Prod.snd hstep)) s.failed h
    · rw [hstep]
      exact .ended hexit
    · rw [hstep]
      exact .went hstep hstatus ht
  | next =>
    show Called p m s s.next.1
    by_cases hfailed : s.failed = true
    · obtain ⟨e, hstep⟩ := h.step_eq_error hfailed
      rw [next_ended (.inl hfailed)]
      exact .held (not_standsOnExit (congrArg Prod.snd hstep)) s.failed h
    · rcases hstatus : s.status with - | -
      · have hnot : s.failed = false := by simpa using hfailed
        rcases hcases with ⟨e, hstep⟩ | ⟨hexit, hstep⟩ | ⟨t, hstep, hrunning, ht⟩
        · rw [next_of_step_error hstatus hnot hstep]
          exact .held (not_standsOnExit (congrArg Prod.snd hstep)) true (h.setFailed hstep)
        · rw [next_of_step_ok hstatus hnot hstep]
          exact .ended hexit
        · rw [next_of_step_ok hstatus hnot hstep]
          exact .went hstep hrunning ht
      · rw [next_ended (.inr hstatus)]
        have hended := Called.ended (p := p) (m := m) (h.standsOnExit hstatus)
        rwa [← hstatus] at hended

namespace Called

variable (hc : Called p m s t)

include hc

/-- **A call stays along the run.** -/
theorem alongRun (h : s.AlongRun p m) : t.AlongRun p m := by
  cases hc with
  | held _ _ ht => exact ht
  | ended hexit => exact h.ended hexit
  | went _ _ ht => exact ht

/-- **A call leaves the session ended exactly when it found it on `exit`.** -/
theorem status_eq_exited_iff (h : s.AlongRun p m) : t.status = .exited ↔ s.StandsOnExit := by
  cases hc with
  | held hexit => exact ⟨h.standsOnExit, fun hs ↦ absurd hs hexit⟩
  | ended hexit => exact ⟨fun _ ↦ hexit, fun _ ↦ rfl⟩
  | went hstep hstatus =>
    refine ⟨fun hended ↦ ?_, fun hexit ↦ ?_⟩
    · cases hstatus.symm.trans hended
    · rw [step_of_standsOnExit hexit] at hstep
      cases hstep

/-- **A call does not change what the run comes to.** -/
theorem runsTo_iff : t.RunsTo r ↔ s.RunsTo r := by
  cases hc with
  | held _ b => exact runsTo_setFailed s b
  | ended hexit =>
    have hexit' : StandsOnExit { s with status := .exited } := hexit
    rw [runsTo_of_standsOnExit hexit, runsTo_of_standsOnExit hexit']
  | went hstep => exact runsTo_of_step_running hstep

end Called

/-! ### Any calls -/

/-- A session that has ended is not changed by any call. -/
theorem calls_of_exited (h : s.status = .exited) (cs : List Call) : s.calls cs = s := by
  induction cs with
  | nil => rfl
  | cons c cs ih =>
    have hcall : s.call c = s := by
      cases c with
      | step => exact congrArg Prod.fst (step_exited h)
      | next => exact congrArg Prod.fst (next_ended (.inr h))
    rw [calls, List.foldl_cons, hcall]
    exact ih

theorem AlongRun.calls (h : s.AlongRun p m) (hp : p.WellFormed) (cs : List Call) :
    (s.calls cs).AlongRun p m ∧ ((s.calls cs).RunsTo r ↔ s.RunsTo r) := by
  induction cs generalizing s with
  | nil => exact ⟨h, Iff.rfl⟩
  | cons c cs ih =>
    have hcalled := h.called hp c
    obtain ⟨halong, hruns⟩ := ih (hcalled.alongRun h)
    exact ⟨halong, hruns.trans hcalled.runsTo_iff⟩

/-- A session on a prepared machine is on the run from it. -/
theorem alongRun_of_prepare {setup : Setup} {m : Machine setup.cells} (hp : p.WellFormed)
    (hm : Machine.prepare p setup = .ok m) :
    AlongRun p m ({ program := p, machine := m } : Session setup.cells) where
  follows := follows_of_prepare hp hm
  executes := .start
  standsOnExit hended := by cases hended
  step_eq_error hfailed := by cases hfailed

/-- **Calls in any order go along one run.** After any calls of `step` and `next` on a prepared
machine, the machine is the one that as many statements lead to as steps are counted. The session
has ended exactly when a call found it on `exit`, and then no call changes anything. The run from
there gives the machine or the error that the run from the start gives, and has no end when that has
none. -/
theorem calls_along_run {text : String} {p : Program} {setup : Setup} {m : Machine setup.cells}
    (hp : Program.ofText text = .ok p) (hm : Machine.prepare p setup = .ok m) (cs : List Call) :
    let start : Session setup.cells := { program := p, machine := m }
    let s := start.calls cs
    (∀ m', m.Executes p s.steps m' ↔ m' = s.machine) ∧
      (s.status = .exited ↔
        ∃ before c after, cs = before ++ c :: after ∧ (start.calls before).StandsOnExit) ∧
      (s.status = .exited → ∀ more, s.calls more = s) ∧
      ∀ r, s.RunsTo r ↔ start.RunsTo r := by
  intro start s
  have hwf := Program.wellFormed_of_ofText hp
  have hstart : start.AlongRun p m := alongRun_of_prepare hwf hm
  have halong (cs : List Call) : (start.calls cs).AlongRun p m :=
    (hstart.calls (r := .ok m) hwf cs).1
  -- The call after some calls ends the session exactly when these lead to `exit`.
  have hended (before : List Call) (c : Call) :
      (start.calls (before ++ [c])).status = .exited ↔ (start.calls before).StandsOnExit := by
    rw [calls_append]
    exact ((halong before).called hwf c).status_eq_exited_iff (halong before)
  refine ⟨fun m' ↦ ⟨fun h ↦ h.unique (halong cs).executes, fun h ↦ h ▸ (halong cs).executes⟩,
    ⟨fun h ↦ ?_, ?_⟩, fun h more ↦ calls_of_exited h more, fun r ↦ (hstart.calls hwf cs).2⟩
  · rcases List.eq_nil_or_concat' cs with rfl | ⟨before, c, rfl⟩
    · cases h
    · exact ⟨before, c, [], rfl, (hended before c).1 h⟩
  · rintro ⟨before, c, after, hcs, hexit⟩
    have hfound := (hended before c).2 hexit
    have hsame := calls_of_exited hfound after
    rw [← calls_append, List.append_assoc, List.singleton_append, ← hcs] at hsame
    show (start.calls cs).status = .exited
    rw [hsame]
    exact hfound

/-- Five calls in turn come to `exit` with two statements carried out. Where the cursor would leave
memory, a failed item, a failed step and an item that is held back leave the session as it was. -/
theorem calls_along_run_mixed :
    (∃ (p : Program) (m : Machine 1) (s : Session 1),
      Program.ofText "print\nset value to 3\nexit" = .ok p ∧
      Machine.prepare p { cells := 1 } = .ok m ∧
      s = ({ program := p, machine := m } : Session 1).calls [.next, .step, .next, .step, .next] ∧
      s.steps = 2 ∧ s.status = .exited ∧ m.Executes p 2 s.machine ∧
      (∃ before c after, [.next, .step, .next, .step, .next] = before ++ c :: after ∧
        (({ program := p, machine := m } : Session 1).calls before).StandsOnExit) ∧
      (∀ more, s.calls more = s) ∧
      ∀ r, s.RunsTo r ↔ ({ program := p, machine := m } : Session 1).RunsTo r) ∧
    ∃ (p : Program) (m : Machine 1) (s : Session 1),
      Program.ofText "print\nmin memory pointer\nexit" = .ok p ∧
      Machine.prepare p { cells := 1 } = .ok m ∧
      s = ({ program := p, machine := m } : Session 1).calls [.step, .next, .step, .next] ∧
      s.steps = 1 ∧ s.failed = true ∧ m.Executes p 1 s.machine ∧
      ({ program := p, machine := m } : Session 1).RunsTo (.error (.memoryOutOfRange 2 (-1) 1)) ∧
      s.RunsTo (.error (.memoryOutOfRange 2 (-1) 1)) := by
  let m : Machine 1 := ⟨#v[0], 0, 0, [], #[]⟩
  constructor
  · let p : Program := ⟨[⟨1, [], .print⟩, ⟨2, ["3"], .set 3⟩, ⟨3, [], .exit⟩], []⟩
    let s : Session 1 := ⟨p, ⟨#v[3], 0, 2, [], #[0]⟩, .exited, false, 2⟩
    have hp : Program.ofText "print\nset value to 3\nexit" = .ok p := by rfl
    have hm : Machine.prepare p { cells := 1 } = .ok m := by rfl
    have hs : ({ program := p, machine := m } : Session 1).calls
        [.next, .step, .next, .step, .next] = s := by
      decide +kernel
    obtain ⟨hmachine, hstatus, hmore, hruns⟩ :=
      calls_along_run hp hm [.next, .step, .next, .step, .next]
    rw [hs] at hmachine hstatus hmore hruns
    exact ⟨p, m, s, hp, hm, hs.symm, rfl, rfl, (hmachine s.machine).2 rfl, hstatus.1 rfl,
      hmore rfl, hruns⟩
  · let p : Program := ⟨[⟨1, [], .print⟩, ⟨2, [], .moveBy .backward 1⟩, ⟨3, [], .exit⟩], []⟩
    let s : Session 1 := ⟨p, ⟨#v[0], 0, 1, [], #[0]⟩, .running, true, 1⟩
    have hp : Program.ofText "print\nmin memory pointer\nexit" = .ok p := by rfl
    have hm : Machine.prepare p { cells := 1 } = .ok m := by rfl
    have hs : ({ program := p, machine := m } : Session 1).calls [.step, .next, .step, .next] =
        s := by
      decide +kernel
    obtain ⟨hmachine, -, -, hruns⟩ := calls_along_run hp hm [.step, .next, .step, .next]
    rw [hs] at hmachine hruns
    have hrun : ({ program := p, machine := m } : Session 1).RunsTo
        (.error (.memoryOutOfRange 2 (-1) 1)) := ⟨2, by rfl⟩
    exact ⟨p, m, s, hp, hm, hs.symm, rfl, rfl, (hmachine s.machine).2 rfl, hrun,
      (hruns _).2 hrun⟩

end Session

end CursorMachine
