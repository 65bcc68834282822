import CursorMachine.Proofs.Running.Effects

/-!
# Items and runs

`Session.run?` and `Session.next` take the same steps and stop on their own terms: the run at `exit`
or at an error, the items when the session has ended or `next` has failed. This module lines the two
up. The items of a session are the machines after each step of its run, and then what the run gives,
which at `exit` is the last machine once more and at an error is the error. After that there are
none (`Session.yields_snapshots_of_run`). A run without an end gives an item at every call
(`Session.item?_of_endless`).

Both inductions go along the run and look at one step only, through `Session.step_cases`. What they
keep is that the session is running and that `next` has not failed, so that `next` takes the very
step that the run takes (`next_of_step_ok`, `next_of_step_error`).
-/

namespace CursorMachine

namespace Session

variable {size : Nat} {s t : Session size}

/-! ### What items and runs are compared by -/

/-- The session after a number of steps. -/
def after : Nat → Session size → Session size
  | 0, s => s
  | n + 1, s => after n s.step.1

theorem program_after (s : Session size) (n : Nat) : (s.after n).program = s.program := by
  induction n generalizing s with
  | zero => rfl
  | succ n ih => exact (ih s.step.1).trans s.program_step

theorem Follows.after {p : Program} {functions : List (String × Nat)} (h : s.Follows p functions)
    (n : Nat) : (s.after n).Follows p functions := by
  induction n generalizing s with
  | zero => exact h
  | succ n ih => exact ih h.step

/-- What a call of `next` yields that comes after a number of others; `none` when it yields
nothing. -/
def item? : Nat → Session size → Option (Except Error (Machine size))
  | 0, s => s.next.2
  | j + 1, s => item? j s.next.1

/-- The calls of `next` yield these items, in order, and every call after them yields nothing. -/
def Yields (s : Session size) (items : List (Except Error (Machine size))) : Prop :=
  ∀ j, s.item? j = items[j]?

/-- The machines after each of the first `k` steps. -/
def snapshots (k : Nat) (s : Session size) : List (Except Error (Machine size)) :=
  (List.range k).map fun j ↦ .ok (s.after (j + 1)).machine

theorem length_snapshots (k : Nat) (s : Session size) : (s.snapshots k).length = k := by
  rw [snapshots, List.length_map, List.length_range]

theorem getElem?_snapshots {j k : Nat} (h : j < k) (s : Session size) :
    (s.snapshots k)[j]? = some (.ok (s.after (j + 1)).machine) := by
  rw [snapshots, List.getElem?_map, List.getElem?_range h]
  rfl

theorem snapshots_succ (k : Nat) (s : Session size) :
    s.snapshots (k + 1) = .ok s.step.1.machine :: s.step.1.snapshots k := by
  rw [snapshots, List.range_succ_eq_map, List.map_cons, List.map_map]
  rfl

/-! ### Calls of `next` -/

theorem next_ended (h : s.failed = true ∨ s.status = .exited) : s.next = (s, none) := by
  unfold next
  rw [if_pos]
  simpa using h

section Running

variable (hstatus : s.status = .running) (hfailed : s.failed = false)

include hstatus hfailed

theorem next_of_step_ok {status : Status} (hstep : s.step = (t, .ok status)) :
    s.next = (t, some (.ok t.machine)) := by
  unfold next
  rw [if_neg (by simp [hstatus, hfailed]), hstep]

theorem next_of_step_error {e : Error} (hstep : s.step = (t, .error e)) :
    s.next = ({ t with failed := true }, some (.error e)) := by
  unfold next
  rw [if_neg (by simp [hstatus, hfailed]), hstep]

end Running

/-- A session that has ended, or on which `next` has failed, yields nothing at any call. -/
theorem yields_nil (h : s.failed = true ∨ s.status = .exited) : s.Yields [] := by
  intro j
  induction j with
  | zero =>
    show s.next.2 = none
    rw [next_ended h]
  | succ j ih =>
    show item? j s.next.1 = none
    rw [next_ended h]
    exact ih

theorem yields_cons {item : Except Error (Machine size)}
    {items : List (Except Error (Machine size))} (h : s.next = (t, some item))
    (ht : t.Yields items) : s.Yields (item :: items) := by
  intro j
  rcases j with - | j
  · show s.next.2 = some item
    rw [h]
  · show item? j s.next.1 = items[j]?
    rw [h]
    exact ht j

/-- After the first item come the others. -/
theorem Yields.exists_next {item : Except Error (Machine size)}
    {items : List (Except Error (Machine size))} (h : s.Yields (item :: items)) :
    ∃ t, s.next = (t, some item) ∧ t.Yields items :=
  ⟨s.next.1, Prod.ext rfl (h 0), fun j ↦ h (j + 1)⟩

/-! ### Runs that end -/

/-- **The items of a run that ends**: the machine after each step that is counted, and then what the
run gives. -/
theorem exists_yields_of_run? {fuel : Nat} {r : Except Error (Machine size)}
    (hstatus : s.status = .running) (hfailed : s.failed = false) (h : s.run? fuel = some r) :
    ∃ k, (s.advance fuel).steps = s.steps + k ∧ s.Yields (s.snapshots k ++ [r]) ∧
      ∀ m, r = .ok m → (s.after k).machine = m := by
  induction fuel generalizing s with
  | zero => cases h
  | succ fuel ih =>
    rcases step_cases hstatus with ⟨machine, e, hstep⟩ | hstep | ⟨machine, hstep⟩
    · rw [run?, hstep] at h
      cases h
      refine ⟨0, ?_, yields_cons (next_of_step_error hstatus hfailed hstep) (yields_nil (.inl rfl)),
        fun m hm ↦ ?_⟩
      · rw [advance, hstep]
        rfl
      · cases hm
    · rw [run?, hstep] at h
      cases h
      refine ⟨0, ?_, yields_cons (next_of_step_ok hstatus hfailed hstep) (yields_nil (.inr rfl)),
        fun m hm ↦ ?_⟩
      · rw [advance, hstep]
        rfl
      · cases hm
        rfl
    · rw [run?, hstep] at h
      obtain ⟨k, hsteps, hyields, hlast⟩ := ih (s := { s with machine, steps := s.steps + 1 })
        hstatus hfailed h
      have hfst : s.step.1 = { s with machine, steps := s.steps + 1 } := congrArg Prod.fst hstep
      refine ⟨k + 1, ?_, ?_, fun m hm ↦ ?_⟩
      · rw [advance, hstep]
        show (advance fuel _).steps = s.steps + (k + 1)
        rw [hsteps]
        show s.steps + 1 + k = s.steps + (k + 1)
        omega
      · rw [snapshots_succ, hfst]
        exact yields_cons (next_of_step_ok hstatus hfailed hstep) hyields
      · rw [after, hfst]
        exact hlast m hm

/-! ### Runs that do not end -/

/-- A run without an end goes on with a step, and the rest of it has no end. -/
theorem exists_step_of_endless (hstatus : s.status = .running) (h : ∀ fuel, s.run? fuel = none) :
    ∃ machine, s.step = ({ s with machine, steps := s.steps + 1 }, .ok .running) ∧
      ∀ fuel, s.step.1.run? fuel = none := by
  rcases step_cases hstatus with ⟨machine, e, hstep⟩ | hstep | ⟨machine, hstep⟩
  · have hone := h 1
    rw [run?, hstep] at hone
    cases hone
  · have hone := h 1
    rw [run?, hstep] at hone
    cases hone
  · refine ⟨machine, hstep, fun fuel ↦ ?_⟩
    have hmore := h (fuel + 1)
    rw [run?, hstep] at hmore
    rw [hstep]
    exact hmore

/-- **The items of a run without an end**: the machine after each step. -/
theorem item?_of_endless (hstatus : s.status = .running) (hfailed : s.failed = false)
    (h : ∀ fuel, s.run? fuel = none) (j : Nat) :
    s.item? j = some (.ok (s.after (j + 1)).machine) := by
  induction j generalizing s with
  | zero =>
    obtain ⟨machine, hstep, -⟩ := exists_step_of_endless hstatus h
    show s.next.2 = some (.ok s.step.1.machine)
    rw [next_of_step_ok hstatus hfailed hstep, hstep]
  | succ j ih =>
    obtain ⟨machine, hstep, hrest⟩ := exists_step_of_endless hstatus h
    have hnext := next_of_step_ok hstatus hfailed hstep
    show item? j s.next.1 = some (.ok (after (j + 1) s.step.1).machine)
    rw [hnext]
    rw [hstep] at hrest ⊢
    exact ih hstatus hfailed hrest

/-! ### Items and runs -/

/-- **Items and runs agree.** When the run of a program on a machine stops at `exit` after `k`
steps, the items are the machines after each of these steps and the last machine once more. When it
stops at an error after `k` steps, the items are the machines after each of them and the error. In
both cases there are no others. When the run does not stop, every call yields the machine after one
more step. -/
theorem yields_snapshots_of_run (p : Program) (m : Machine size) :
    let s : Session size := { program := p, machine := m }
    (∀ fuel k m', s.run? fuel = some (.ok m') → (s.advance fuel).steps = k →
        s.Yields (s.snapshots k ++ [.ok m']) ∧ (1 ≤ k → s.item? (k - 1) = s.item? k)) ∧
      (∀ fuel k e, s.run? fuel = some (.error e) → (s.advance fuel).steps = k →
        s.Yields (s.snapshots k ++ [.error e])) ∧
      ((∀ fuel, s.run? fuel = none) → ∀ j, s.item? j = some (.ok (s.after (j + 1)).machine)) := by
  intro s
  -- A session starts with no step counted, so the count is the number of steps of the run.
  have hrun : ∀ {fuel k r}, s.run? fuel = some r → (s.advance fuel).steps = k →
      s.Yields (s.snapshots k ++ [r]) ∧ ∀ m', r = .ok m' → (s.after k).machine = m' := by
    intro fuel k r h hsteps
    obtain ⟨k', hsteps', hitems⟩ := exists_yields_of_run? rfl rfl h
    obtain rfl : k = k' := hsteps.symm.trans (hsteps'.trans (Nat.zero_add k'))
    exact hitems
  refine ⟨fun fuel k m' h hsteps ↦ ?_, fun fuel k e h hsteps ↦ (hrun h hsteps).1,
    fun h ↦ item?_of_endless rfl rfl h⟩
  obtain ⟨hyields, hlast⟩ := hrun h hsteps
  refine ⟨hyields, fun hpos ↦ ?_⟩
  have hlength := s.length_snapshots k
  calc s.item? (k - 1)
      = (s.snapshots k)[k - 1]? := by
        rw [hyields, List.getElem?_append_left (by omega)]
    _ = some (.ok (s.after k).machine) := by
        rw [getElem?_snapshots (by omega), Nat.sub_add_cancel hpos]
    _ = some (.ok m') := by rw [hlast m' rfl]
    _ = s.item? k := by
        rw [hyields, List.getElem?_append_right (by omega), hlength, Nat.sub_self]
        rfl

/-- Two statements and `exit` give three items, of which the last two are the same machine. A move
of the cursor below the first cell, after one statement, gives one machine and one error. -/
theorem yields_snapshots_of_run_three :
    (∃ (p : Program) (m m' : Machine 1),
      Program.ofText "set value to 1\nincrement pointer by 1\nexit" = .ok p ∧
      Machine.prepare p { cells := 1 } = .ok m ∧ m'.memory = #v[2] ∧
      ∃ s : Session 1, s = { program := p, machine := m } ∧ s.run? 3 = some (.ok m') ∧
        s.Yields (s.snapshots 2 ++ [.ok m']) ∧ s.item? 1 = s.item? 2) ∧
    ∃ (p : Program) (m : Machine 1),
      Program.ofText "print\nmin memory pointer\nexit" = .ok p ∧
      Machine.prepare p { cells := 1 } = .ok m ∧
      ∃ s : Session 1, s = { program := p, machine := m } ∧
        s.run? 2 = some (.error (.memoryOutOfRange 2 (-1) 1)) ∧
        s.Yields (s.snapshots 1 ++ [.error (.memoryOutOfRange 2 (-1) 1)]) := by
  let m : Machine 1 := ⟨#v[0], 0, 0, [], #[]⟩
  constructor
  · let p : Program := ⟨[⟨1, ["1"], .set 1⟩, ⟨2, ["1"], .update .add 1⟩, ⟨3, [], .exit⟩], []⟩
    let m' : Machine 1 := ⟨#v[2], 0, 2, [], #[]⟩
    have hrun : ({ program := p, machine := m } : Session 1).run? 3 = some (.ok m') := by rfl
    obtain ⟨hyields, hlast⟩ := (yields_snapshots_of_run p m).1 3 2 m' hrun (by rfl)
    exact ⟨p, m, m', by rfl, by rfl, rfl, _, rfl, hrun, hyields, hlast (by decide)⟩
  · let p : Program := ⟨[⟨1, [], .print⟩, ⟨2, [], .moveBy .backward 1⟩, ⟨3, [], .exit⟩], []⟩
    have hrun : ({ program := p, machine := m } : Session 1).run? 2 =
        some (.error (.memoryOutOfRange 2 (-1) 1)) := by rfl
    exact ⟨p, m, by rfl, by rfl, _, rfl, hrun,
      (yields_snapshots_of_run p m).2.1 2 1 _ hrun (by rfl)⟩

end Session

end CursorMachine
