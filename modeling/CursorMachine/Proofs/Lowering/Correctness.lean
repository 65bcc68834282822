import CursorMachine.CommandLine.Interpretation
import CursorMachine.Proofs.Lowering.Listing
import CursorMachine.Proofs.Lowering.Names
import CursorMachine.Proofs.Lowering.Setup

/-!
# Lowered code does what the program does

`Image.Simulates` says what it means that code does what a session does. It has four parts: the code
arrives at the machine the session starts with; a step of the session is followed by the code, from
wherever the two stand together (`Image.Follows`); a run that comes to an end within some number of
steps is followed to its end, and one that does not is followed that far; and a run without end is
followed without end. The ends correspond as `Image.Ends` says: the code leaves with the first cell
at `exit`, and with a status of its own for each of the two errors that can still occur.

`exists_start_simulates` is the theorem for a program that was read, prepared and lowered. It starts
from the text of the lowered code, so it covers how the code is spelled.
-/

namespace CursorMachine

/-- What a machine has printed, as it is put out by code. -/
def Machine.events {size : Nat} (m : Machine size) : List Arm.Event :=
  m.printed.toList.map .number

namespace Arm

/-- The exit status that stands for an error of a run; `none` for errors that code cannot meet. -/
def faultStatus? : Error → Option UInt32
  | .memoryOutOfRange .. => some memoryFaultStatus
  | .instructionOutOfRange .. => some instructionFaultStatus
  | _ => none

namespace Image

/-- The execution that starts at a label. -/
def start (i : Image) (name : String) (q : Processor) : Option Execution :=
  (seek name i.lines).map fun ahead ↦ ⟨ahead, q, []⟩

/-- The code leaves the way a run on a machine ended: with the first cell, or with the status of the
error. Everything the machine has printed was put out. -/
def Ends {size : Nat} (i : Image) (e : Execution) (m : Machine size) : Except Error Unit → Prop
  | .ok () => i.Leaves e m.first.toUInt32 m.events
  | .error error => ∃ status, faultStatus? error = some status ∧ i.Leaves e status m.events

/-- The code follows a step: to the next machine, or to the end of the program. -/
def Follows {size : Nat} (i : Image) (base : UInt32) (e : Execution) :
    Session size × Except Error Status → Prop
  | (s, .ok .running) => ∃ e', i.Advances e e' ∧ e'.StandsAt i base s.machine
  | (s, .ok .exited) => i.Ends e s.machine (.ok ())
  | (s, .error error) => i.Ends e s.machine (.error error)

/-- The execution does what the session does. -/
structure Simulates {size : Nat} (i : Image) (base : UInt32) (e : Execution) (s : Session size) :
    Prop where
  /-- The code arrives at the machine that the session starts with. -/
  arrives : i.LeadsTo base e s.machine
  /-- Wherever a session of the program and an execution of the code stand together, the code
  follows a step of the session. -/
  follows : ∀ (s' : Session size) e', s'.program = s.program →
    s'.machine.functions = s.machine.functions → s'.machine.position ≤ s.program.length →
    s'.status = .running → e'.StandsAt i base s'.machine → i.Follows base e' s'.step
  /-- However many steps the session takes, the code takes as many at least and stands with it, or
  ends the way the session does. -/
  agrees : ∀ fuel,
    match s.run? fuel with
    | none => ∃ n e', fuel ≤ n ∧ i.run n e = .on e' ∧
        e'.StandsAt i base (s.advance fuel).machine
    | some (.ok m) => i.Ends e m (.ok ())
    | some (.error error) => i.Ends e (s.advance fuel).machine (.error error)
  /-- When the session runs without end, so does the code. -/
  endless : (∀ fuel, s.run? fuel = none) → ∀ n, ∃ e', i.run n e = .on e'

section Named

variable {size : Nat} {i : Image} {base : UInt32} {e : Execution} {s : Session size}

theorem LeadsTo.named {m : Machine size} (h : i.LeadsTo base e m) :
    i.named.LeadsTo base e.named m := by
  obtain ⟨e', hreaches, hstands⟩ := h
  exact ⟨e'.named, hreaches.named, hstands.named⟩

theorem Ends.named {m : Machine size} {r : Except Error Unit} (h : i.Ends e m r) :
    i.named.Ends e.named m r := by
  cases r with
  | ok => exact Leaves.named h
  | error error =>
    obtain ⟨status, hfault, hleaves⟩ := h
    exact ⟨status, hfault, hleaves.named⟩

theorem Follows.named {r : Session size × Except Error Status} (h : i.Follows base e r) :
    i.named.Follows base e.named r := by
  obtain ⟨s', error | (- | -)⟩ := r
  · have hends : i.Ends e s'.machine (.error error) := h
    exact hends.named
  · obtain ⟨e', hadvances, hstands⟩ := h
    exact ⟨e'.named, hadvances.named, hstands.named⟩
  · have hends : i.Ends e s'.machine (.ok ()) := h
    exact hends.named

/-- **Code with names for labels simulates what the code does.** -/
theorem Simulates.named (h : i.Simulates base e s) : i.named.Simulates base e.named s where
  arrives := h.arrives.named
  follows s' e' hprogram hfunctions hposition hstatus he' := by
    obtain ⟨e₀, he₀, rfl⟩ := he'.exists_of_named
    exact (h.follows s' e₀ hprogram hfunctions hposition hstatus he₀).named
  agrees fuel := by
    have hagrees := h.agrees fuel
    split at hagrees
    · obtain ⟨n, e', hle, hrun, hstands⟩ := hagrees
      exact ⟨n, e'.named, hle, by rw [run_named, hrun]; rfl, hstands.named⟩
    · exact Ends.named hagrees
    · exact Ends.named hagrees
  endless hendless n := by
    obtain ⟨e', hrun⟩ := h.endless hendless n
    exact ⟨e'.named, by rw [run_named, hrun]; rfl⟩

end Named

namespace Implements

variable {i : Image} {p : Program} {layout : Layout} {options : Options} {inputs : List Cell}
  {size : Nat} {base : UInt32} (hi : i.Implements p layout options inputs size base)
  {s : Session size} {st : Statement} {e : Execution}

include hi

/-- The code of a statement is ahead of an execution that stands at it, after one line. -/
theorem exists_advances_lowerInstruction (he : e.StandsAt i base s.machine)
    (hst : p.statement? s.machine.position = some st) :
    i.Advances e ⟨lowerInstruction size st.line st.instruction ++
      codeAfter p layout options inputs s.machine.position, e.processor, e.output⟩ := by
  have hahead : e.ahead = codeAt p layout options inputs s.machine.position :=
    Option.some.inj (he.ahead_eq.symm.trans
      (hi.seek_node (Nat.le_of_lt (Program.lt_length_of_statement? hst))))
  rw [codeAt_of_statement? hst, lowerStatement, hi.size_eq] at hahead
  obtain ⟨ahead, q, output⟩ := e
  subst hahead
  rw [List.append_assoc]
  exact advances_of_step rfl (reaches_remark _ _)

/-- **A step of the session is followed by the code.** -/
theorem follows_step (hprogram : s.program = p) (hfunctions : s.machine.functions = p.table)
    (hposition : s.machine.position ≤ p.length) (hstatus : s.status = .running)
    (he : e.StandsAt i base s.machine) : i.Follows base e s.step := by
  subst hprogram
  rcases hst : s.program.statement? s.machine.position with - | st
  · -- Past the last line.
    have hlast : s.machine.position = s.program.length := by
      have := Program.statement?_eq_none_iff.1 hst
      omega
    have hahead : e.ahead = codeAt s.program layout options inputs s.program.length := by
      have hseek := hi.seek_node (Nat.le_refl s.program.length)
      rw [← hlast, he.ahead_eq] at hseek
      rw [Option.some.inj hseek, hlast]
    rw [Session.step_past hstatus hst]
    refine ⟨instructionFaultStatus, rfl, ?_⟩
    rw [Machine.events, ← he.output_eq]
    obtain ⟨ahead, q, output⟩ := e
    subst hahead
    exact hi.leaves_codeAt_length
  have hadvance := hi.exists_advances_lowerInstruction he hst
  by_cases hexit : st.instruction = .exit
  · -- At `exit`.
    rw [Session.step_exit hstatus hst hexit]
    have hfirst : e.processor.word (e.processor.register .fp - 4) = s.machine.first.toUInt32 := by
      rw [he.mirrors.fp_eq]
      exact he.mirrors.word_eq 0 (Nat.zero_lt_of_lt s.machine.cursor.isLt)
    rw [hexit] at hadvance
    refine hadvance.reaches.leaves ?_
    rw [← hfirst, Machine.events, ← he.output_eq]
    exact hi.leaves_exit
  rw [Session.step_attempt hstatus hst hexit]
  rcases hattempt : s.machine.attempt s.program.length st with ⟨m', - | error⟩
  · -- At a statement that is carried out.
    obtain ⟨e', hreaches, hstands⟩ :=
      hi.leadsTo_of_attempt hst hfunctions hexit he.mirrors he.output_eq hattempt
    exact ⟨e', hadvance.trans hreaches, hstands⟩
  · -- At a statement that is refused, which can only be a move of the cursor.
    by_cases hmove : ∃ d n, st.instruction = .moveBy d n
    · obtain ⟨d, n, hmoveBy⟩ := hmove
      obtain ⟨rfl, hout, rfl⟩ :=
        Machine.attempt_moveBy_eq_error hi.wellFormed hst hmoveBy hattempt
      rw [hmoveBy] at hadvance
      refine ⟨memoryFaultStatus, rfl, hadvance.reaches.leaves ?_⟩
      rw [Machine.events, ← he.output_eq]
      exact leaves_moveBy hi.toHolds hi.room he.mirrors d hout
    · have hcallable : layout.callable = s.machine.functions.map Prod.fst := by
        rw [hfunctions, hi.callable_eq]
      have hnone := Machine.attempt_of_check hi.wellFormed hst hi.size_eq hcallable hfunctions
        (hi.checked st (Program.mem_of_statement? hst)) fun d n h ↦ hmove ⟨d, n, h⟩
      rw [hattempt] at hnone
      cases hnone

/-- **A run is followed by the code**, to its end or as far as it goes. -/
theorem agrees_of_standsAt (hsession : s.Follows p p.table) (hstatus : s.status = .running)
    (he : e.StandsAt i base s.machine) (fuel : Nat) :
    match s.run? fuel with
    | none => ∃ n e', fuel ≤ n ∧ i.run n e = .on e' ∧
        e'.StandsAt i base (s.advance fuel).machine
    | some (.ok m) => i.Ends e m (.ok ())
    | some (.error error) => i.Ends e (s.advance fuel).machine (.error error) := by
  induction fuel generalizing s e with
  | zero => exact ⟨0, e, Nat.le_refl 0, rfl, he⟩
  | succ fuel ih =>
    have hfollows := hi.follows_step hsession.program_eq hsession.functions_eq
      hsession.position_le hstatus he
    have hnext := hsession.step
    have hrunning := Session.status_step_of_running (s := s)
    rw [Session.run?, Session.advance]
    rcases hstep : s.step with ⟨s', error | (- | -)⟩
    · rw [hstep] at hfollows
      exact hfollows
    · rw [hstep] at hfollows hnext hrunning
      obtain ⟨e', ⟨k, hk⟩, he'⟩ := hfollows
      have hrest := ih hnext (hrunning rfl) he'
      -- The code took `k + 1` steps for this one, so it has gone at least as far as the fuel.
      have hreaches : i.Reaches e e' := ⟨k + 1, hk⟩
      dsimp only
      split at hrest
      · next hnone =>
        obtain ⟨n, e'', hle, hrun, hstands⟩ := hrest
        rw [hnone]
        exact ⟨k + 1 + n, e'', by omega, (run_add hk n).trans hrun, hstands⟩
      · next m hok =>
        rw [hok]
        exact hreaches.leaves hrest
      · next error herror =>
        rw [herror]
        obtain ⟨status, hfault, hleaves⟩ := hrest
        exact ⟨status, hfault, hreaches.leaves hleaves⟩
    · rw [hstep] at hfollows
      exact hfollows

/-- **A run without end is followed without end.** -/
theorem endless_of_standsAt (hsession : s.Follows p p.table) (hstatus : s.status = .running)
    (he : e.StandsAt i base s.machine) (hendless : ∀ fuel, s.run? fuel = none) (n : Nat) :
    ∃ e', i.run n e = .on e' := by
  let P (e : Execution) : Prop := ∃ s : Session size, s.Follows p p.table ∧ s.status = .running ∧
    e.StandsAt i base s.machine ∧ ∀ fuel, s.run? fuel = none
  refine exists_run_eq_on_of_advances (P := P) ?_ ⟨s, hsession, hstatus, he, hendless⟩ n
  rintro e ⟨s, hsession, hstatus, he, hendless⟩
  have hfollows := hi.follows_step hsession.program_eq hsession.functions_eq
    hsession.position_le hstatus he
  have hnext := hsession.step
  have hrunning := Session.status_step_of_running (s := s)
  -- One step ends no run, so the session is still running after it.
  have hone := hendless 1
  rw [Session.run?] at hone
  rcases hstep : s.step with ⟨s', error | (- | -)⟩
  · rw [hstep] at hone
    cases hone
  · rw [hstep] at hfollows hnext hrunning
    obtain ⟨e', hadvances, he'⟩ := hfollows
    refine ⟨e', hadvances, s', hnext, hrunning rfl, he', fun fuel ↦ ?_⟩
    have hmore := hendless (fuel + 1)
    rwa [Session.run?, hstep] at hmore
  · rw [hstep] at hone
    cases hone

/-- The code that arrives at the machine of a session simulates the session. -/
theorem simulates_of_leadsTo (hsession : s.Follows p p.table) (hstatus : s.status = .running)
    (he : i.LeadsTo base e s.machine) : i.Simulates base e s := by
  obtain ⟨e₁, hreaches, hstands⟩ := he
  obtain ⟨k, hk⟩ := hreaches
  refine ⟨⟨e₁, ⟨k, hk⟩, hstands⟩, ?_, fun fuel ↦ ?_, fun hendless n ↦ ?_⟩
  · intro s' e' hprogram hfunctions hposition hrunning he'
    rw [hsession.program_eq] at hprogram hposition
    rw [hsession.functions_eq] at hfunctions
    exact hi.follows_step hprogram hfunctions hposition hrunning he'
  · have hrest := hi.agrees_of_standsAt hsession hstatus hstands fuel
    split at hrest
    · obtain ⟨n, e', hle, hrun, he'⟩ := hrest
      exact ⟨k + n, e', by omega, (run_add hk n).trans hrun, he'⟩
    · exact Reaches.leaves ⟨k, hk⟩ hrest
    · obtain ⟨status, hfault, hleaves⟩ := hrest
      exact ⟨status, hfault, Reaches.leaves ⟨k, hk⟩ hleaves⟩
  · obtain ⟨e', hrun⟩ := hi.endless_of_standsAt hsession hstatus hstands hendless n
    exact exists_run_eq_on_of_le ((run_add hk n).trans hrun) (Nat.le_add_left n k)

end Implements

end Image

/-! ### Programs that are lowered -/

/-- **Lowered code does what the program does.** For every program that was read, prepared on a
machine of at most `2 ^ 29` cells and lowered for it, under an entry label of its own: the text of
the lowered code can be read, and started at the entry, with room for the frame below the stack
pointer, what was read simulates the session on the prepared machine. A text in memory is shorter
than `2 ^ 63` characters, so lines are never cut off at `farthest`. -/
theorem exists_start_simulates {source : String} (hsource : source.length < 2 ^ 63) {p : Program}
    {setup : Setup} {m : Machine setup.cells} {options : Options} {lines : List Line}
    (hp : Program.ofText source = .ok p) (hm : Machine.prepare p setup = .ok m)
    (hlines : generate p m.layout options setup.inputs = .ok lines)
    (hcells : setup.cells ≤ 2 ^ 29)
    (hentry : ∀ l ∈ labels lines, l.text = options.entry → l = .entry options.entry)
    {print : Processor → Processor} (hprint : PrintContract print) {q : Processor}
    (hroom : setup.cells * wordBytes + printBytes ≤ (q.register .sp).toNat) :
    ∃ code e, readAll? (text lines) = some code ∧
      Image.start ⟨code, print⟩ options.entry q = some e ∧
      Image.Simulates ⟨code, print⟩ (q.register .sp) e
        ({ program := p, machine := m } : Session setup.cells) := by
  have hwf := Program.wellFormed_of_ofText hp
  obtain ⟨-, hinputs, hmemory, hcursor, hposition, hfunctions, hprinted⟩ :=
    Machine.prepare_eq_ok_iff.1 hm
  obtain ⟨haccepts, hchecked, rfl⟩ := generate_eq_ok_iff.1 hlines
  have hlength := Program.length_le_of_ofText hp hsource
  have hi : Image.Implements ⟨lower p m.layout options setup.inputs, print⟩ p m.layout options
      setup.inputs setup.cells (q.register .sp) :=
    { lines_eq := rfl
      wellFormed := hwf
      unambiguous := unambiguous_lower hwf hentry
      size_eq := rfl
      callable_eq := by
        rw [Machine.layout, hfunctions]
      checked := hchecked
      length_le := by
        unfold farthest
        omega
      room := ⟨hcells, hroom⟩
      print := hprint }
  have hstart : m.layout.start ≤ p.length := by
    rw [Machine.layout, hposition]
    exact hwf.entry_le_length
  obtain ⟨ahead, hseek, hleads⟩ :=
    hi.leadsTo_entry hstart hinputs hmemory hcursor rfl hprinted rfl
  have hsimulates := hi.simulates_of_leadsTo (Session.follows_of_prepare hwf hm) rfl hleads
  refine ⟨_, Execution.named ⟨ahead, q, []⟩,
    readAll?_text_lower hwf m.layout setup.inputs haccepts.isIdentifier, ?_, hsimulates.named⟩
  rw [Image.start, seek_map_named, hseek]
  rfl

/-- A program with a function, a call, an input and a number printed. -/
theorem exists_start_simulates_call :
    ∃ (p : Program) (m : Machine 2) (lines code : List Line) (q : Processor) (e : Execution),
      Program.ofText "make function f\nprint\nmin memory pointer\nclose\nrun function f\nexit" =
        .ok p ∧
      Machine.prepare p { cells := 2, inputs := [-5] } = .ok m ∧
      generate p m.layout {} [-5] = .ok lines ∧ q.register .sp = 4096 ∧
      readAll? (text lines) = some code ∧ Image.start ⟨code, printDecimal⟩ "_start" q = some e ∧
      Image.Simulates ⟨code, printDecimal⟩ (q.register .sp) e
        ({ program := p, machine := m } : Session 2) := by
  let p : Program :=
    ⟨[⟨1, ["f"], .function "f"⟩, ⟨2, [], .print⟩, ⟨3, [], .moveBy .backward 1⟩, ⟨4, [], .close⟩,
      ⟨5, ["f"], .call "f"⟩, ⟨6, [], .exit⟩], [⟨"f", 1, 4⟩]⟩
  let m : Machine 2 := ⟨#v[-5, 0], 0, 4, [("f", 1)], #[]⟩
  let q : Processor := ⟨fun _ ↦ 4096, ⟨false, false, false, false⟩, fun _ ↦ 0⟩
  have hp : Program.ofText
      "make function f\nprint\nmin memory pointer\nclose\nrun function f\nexit" = .ok p := by rfl
  have hm : Machine.prepare p { cells := 2, inputs := [-5] } = .ok m := by rfl
  have hlines : generate p m.layout {} [-5] = .ok (lower p m.layout {} [-5]) := by rfl
  have hentry : ∀ l ∈ labels (lower p m.layout {} [-5]), l.text = "_start" →
      l = .entry "_start" := by
    decide +kernel
  obtain ⟨code, e, hcode, hstart, hsimulates⟩ :=
    exists_start_simulates (by decide) hp hm hlines (by decide) hentry printContract_printDecimal
      (by decide : 2 * wordBytes + printBytes ≤ (q.register .sp).toNat)
  exact ⟨p, m, _, code, q, e, hp, hm, hlines, rfl, hcode, hstart, hsimulates⟩

end Arm

end CursorMachine
