import CursorMachine.CommandLine.Invocation
import CursorMachine.Proofs.Reading.Printable
import CursorMachine.Proofs.Running.Items

/-!
# What an interpretation shows

An interpretation that shows all machines goes from item to item, and any other goes by steps to the
end. The two come to the same: where the run of the session gives a machine, the interpretation
shows the machines of its view and then the results, and where it gives an error, the interpretation
fails with it (`Interpretation.exists_run?_eq_report`). Where the run does not stop, neither does
the interpretation (`Interpretation.exists_run?_session`).

By steps this is one induction along the run (`run?_of_ne_all`). From item to item it is an
induction on the items (`run?_of_yields`), which are known to be the machines after each step and
then what the run gives (`Session.exists_yields_of_run?`).
-/

namespace CursorMachine

variable {size : Nat}

/-! ### Machines and results -/

/-- The machines after each of the first `k` steps. -/
def Session.history (k : Nat) (s : Session size) : List (Machine size) :=
  (List.range k).map fun j ↦ (s.after (j + 1)).machine

theorem Session.snapshots_eq_map_history (k : Nat) (s : Session size) :
    s.snapshots k = (s.history k).map .ok := by
  rw [snapshots, history, List.map_map]
  rfl

/-- The printed values, one after the other. -/
def Machine.values (m : Machine size) : String :=
  String.join (m.printed.toList.map fun v ↦ toString v.toInt)

/-- What is shown of a machine in the end: the printed values on a line, if there are any, and the
first cell. -/
def Machine.results (m : Machine size) : String :=
  (if m.printed.isEmpty then "" else m.values ++ "\n") ++ s!"Output: {m.first.toInt}\n"

/-! ### Machines on one line -/

section Printable

open Text (Printable)

theorem Machine.printable_values (m : Machine size) : Printable m.values := by
  refine Text.printable_join fun w hw ↦ ?_
  obtain ⟨v, -, rfl⟩ := List.mem_map.1 hw
  exact Text.printable_int _

/-- A machine is printable when the names of its functions are. -/
theorem Machine.printable_text {m : Machine size} (h : ∀ f ∈ m.functions, Printable f.1) :
    Printable m.text := by
  have hcomma : Printable ", " := rfl
  have hcells : Printable (", ".intercalate (m.memory.toList.map fun v ↦ toString v.toInt)) := by
    refine Text.printable_intercalate hcomma fun w hw ↦ ?_
    obtain ⟨v, -, rfl⟩ := List.mem_map.1 hw
    exact Text.printable_int _
  have hnames : Printable (", ".intercalate (m.functions.map Prod.fst)) := by
    refine Text.printable_intercalate hcomma fun w hw ↦ ?_
    obtain ⟨f, hf, rfl⟩ := List.mem_map.1 hw
    exact h f hf
  have hcursor := Text.printable_nat m.cursor.val
  have hposition := Text.printable_nat m.position
  unfold text
  refine .append
    (.append (.append (.append (.append (.append (.append ?_ hcells) ?_) hcursor) ?_) hposition) ?_)
    (.append (.append ?_ hnames) ?_) <;> exact rfl

/-- The functions of a program that was read have printable names. -/
theorem Program.WellFormed.printable_of_mem_table {p : Program} (hp : p.WellFormed)
    {f : String × Nat} (hf : f ∈ p.table) : Printable f.1 := by
  rw [hp.table_eq, List.mem_filterMap] at hf
  obtain ⟨s, hs, hopening⟩ := hf
  have hname := hp.inRange hs
  rw [(Statement.opening?_eq_some_iff.1 hopening).1] at hname
  exact Text.printable_of_isIdentifier hname

/-- **Every machine of a run is printable**, so it is shown on one line. -/
theorem Session.Follows.printable_text {p : Program} (hp : p.WellFormed) {s : Session size}
    (h : s.Follows p p.table) : Printable s.machine.text :=
  Machine.printable_text fun _ hf ↦ hp.printable_of_mem_table (h.functions_eq ▸ hf)

end Printable

/-! ### What is shown -/

namespace CommandLine

/-- Machines, each on its line. -/
def lines (machines : List (Machine size)) : String :=
  String.join (machines.map fun m ↦ m.text ++ "\n")

theorem lines_nil : lines ([] : List (Machine size)) = "" := rfl

theorem lines_cons (m : Machine size) (machines : List (Machine size)) :
    lines (m :: machines) = m.text ++ "\n" ++ lines machines := by
  rw [lines, List.map_cons, String.join_cons]
  rfl

theorem lines_singleton (m : Machine size) : lines [m] = m.text ++ "\n" := by
  rw [lines_cons]
  exact String.append_empty

namespace View

/-- The machines that a view shows of those after each step. -/
def sees (view : View) (machines : List (Machine size)) : List (Machine size) :=
  match view with
  | .none => []
  | .final => machines.getLast?.toList
  | .all => machines

/-- What an interpretation has shown in the end and how it ends, when it has shown something before
and the run gives this after these machines. A run that fails has no last machine to show. -/
def report (view : View) (shown : String) (machines : List (Machine size)) :
    Except Error (Machine size) → String × Ending
  | .ok m => (shown ++ lines (view.sees (machines ++ [m])) ++ m.results, .success)
  | .error e =>
    (shown ++ lines (if view = .all then machines else []), .failure (Interpretation.failure e))

variable {view : View} {shown : String} {machines : List (Machine size)}

/-- All views end in the same way. -/
theorem ending_report (view view' : View) (shown : String) (machines : List (Machine size))
    (r : Except Error (Machine size)) :
    (view.report shown machines r).2 = (view'.report shown machines r).2 := by
  cases r <;> rfl

theorem conclusion_eq (view : View) (m : Machine size) :
    Interpretation.conclusion view m =
      (if view = .final then m.text ++ "\n" else "") ++ m.results :=
  String.append_assoc ..

theorem report_ok_of_ne_all (h : view ≠ .all) (m : Machine size) :
    view.report shown machines (.ok m) = (shown ++ Interpretation.conclusion view m, .success) := by
  rw [report, conclusion_eq, ← String.append_assoc]
  cases view with
  | none => rfl
  | final =>
    rw [sees, List.getLast?_concat, Option.toList_some, lines_singleton, if_pos rfl]
  | all => exact absurd rfl h

theorem report_error_of_ne_all (h : view ≠ .all) (e : Error) :
    view.report shown machines (.error e) = (shown, .failure (Interpretation.failure e)) := by
  rw [report, if_neg h, lines_nil, String.append_empty]

theorem report_all_cons (m : Machine size) (r : Except Error (Machine size)) :
    all.report shown (m :: machines) r = all.report (shown ++ (m.text ++ "\n")) machines r := by
  cases r with
  | ok last => simp only [report, sees, List.cons_append, lines_cons, String.append_assoc]
  | error e => simp only [report, if_pos, lines_cons, String.append_assoc]

end View

namespace Interpretation

variable {i : Interpretation size} {shown : String}

/-! ### By steps -/

/-- **Without all machines**, an interpretation shows what its view has of the last one. -/
theorem run?_of_ne_all (h : i.view ≠ .all) (machines : List (Machine size)) (fuel : Nat) :
    i.run? fuel shown = (i.session.run? fuel).map (i.view.report shown machines) := by
  induction fuel generalizing i with
  | zero => rfl
  | succ fuel ih =>
    rw [run?, advance, if_neg h, Session.run?]
    rcases i.session.step with ⟨t, e | status⟩
    · exact congrArg some (View.report_error_of_ne_all h e).symm
    · cases status with
      | running =>
        dsimp only
        rw [String.append_empty]
        exact ih (i := { i with session := t }) h
      | exited => exact congrArg some (View.report_ok_of_ne_all h t.machine).symm

/-! ### From item to item -/

/-- **With all machines**, an interpretation shows the items, and the results of the last. -/
theorem run?_of_yields (h : i.view = .all) {machines : List (Machine size)}
    {r : Except Error (Machine size)} (hyields : i.session.Yields (machines.map .ok ++ [r])) :
    i.run? (machines.length + 2) shown = some (View.all.report shown machines r) := by
  induction machines generalizing i shown with
  | nil =>
    obtain ⟨t, hnext, hnil⟩ := hyields.exists_next
    have hnone : t.next = (t.next.1, none) := Prod.ext rfl (hnil 0)
    rw [List.length_nil, run?, advance, if_pos h, hnext]
    cases r with
    | error e =>
      show some (shown, Ending.failure (failure e)) = _
      rw [View.report, if_pos rfl, lines_nil, String.append_empty]
    | ok m =>
      show run? 1 (shown ++ (m.text ++ "\n")) { i with session := t, last := some m } = _
      rw [run?, advance, if_pos h, hnone, h, View.report, View.sees, List.nil_append,
        lines_singleton]
      dsimp only
      rw [View.conclusion_eq, if_neg (by decide), String.empty_append]
  | cons m machines ih =>
    obtain ⟨t, hnext, hrest⟩ := hyields.exists_next
    rw [List.length_cons, Nat.add_right_comm, run?, advance, if_pos h, hnext, View.report_all_cons]
    exact ih (i := { i with session := t, last := some m }) h hrest

/-- While every item is a machine, an interpretation that shows all machines goes on. -/
theorem run?_eq_none_of_item? (h : i.view = .all)
    (hitems : ∀ j, ∃ m, i.session.item? j = some (.ok m)) (fuel : Nat) :
    i.run? fuel shown = none := by
  induction fuel generalizing i shown with
  | zero => rfl
  | succ fuel ih =>
    obtain ⟨m, hm⟩ := hitems 0
    have hnext : i.session.next = (i.session.next.1, some (.ok m)) := Prod.ext rfl hm
    rw [run?, advance, if_pos h, hnext]
    exact ih (i := { i with session := i.session.next.1, last := some m }) h fun j ↦ hitems (j + 1)

/-! ### Interpretations and runs -/

/-- **Where a run stops, interpretations stop**, with any view, and with what the run gives. -/
theorem exists_run?_eq_report {s : Session size} {fuel : Nat} {r : Except Error (Machine size)}
    (hstatus : s.status = .running) (hfailed : s.failed = false) (h : s.run? fuel = some r) :
    ∃ k, (s.advance fuel).steps = s.steps + k ∧ (∀ m, r = .ok m → (s.after k).machine = m) ∧
      ∀ (view : View) (shown : String), ∃ fuel',
        run? fuel' shown { view, session := s } = some (view.report shown (s.history k) r) := by
  obtain ⟨k, hsteps, hyields, hlast⟩ := Session.exists_yields_of_run? hstatus hfailed h
  rw [Session.snapshots_eq_map_history] at hyields
  refine ⟨k, hsteps, hlast, fun view shown ↦ ?_⟩
  by_cases hview : view = .all
  · subst hview
    exact ⟨_, run?_of_yields rfl hyields⟩
  · refine ⟨fuel, ?_⟩
    rw [run?_of_ne_all hview (s.history k), h]
    rfl

/-- **Where an interpretation stops, its run does.** -/
theorem exists_run?_session {fuel : Nat} {o : String × Ending}
    (hstatus : i.session.status = .running) (hfailed : i.session.failed = false)
    (h : i.run? fuel shown = some o) :
    ∃ fuel r, i.session.run? fuel = some r := by
  by_contra hendless
  have hnone : ∀ fuel, i.session.run? fuel = none := fun fuel ↦
    Option.eq_none_iff_forall_ne_some.2 fun r hr ↦ hendless ⟨fuel, r, hr⟩
  by_cases hview : i.view = .all
  · rw [run?_eq_none_of_item? hview
      fun j ↦ ⟨_, Session.item?_of_endless hstatus hfailed hnone j⟩] at h
    cases h
  · rw [run?_of_ne_all hview [], hnone] at h
    cases h

/-- More fuel does not change what an interpretation comes to. -/
theorem run?_add {fuel : Nat} {o : String × Ending} (h : i.run? fuel shown = some o) (more : Nat) :
    i.run? (fuel + more) shown = some o := by
  induction fuel generalizing i shown with
  | zero => cases h
  | succ fuel ih =>
    rw [run?] at h
    rw [Nat.add_right_comm, run?]
    split at h
    next => exact h
    next => exact h
    next => exact ih h

end Interpretation

end CommandLine

end CursorMachine
