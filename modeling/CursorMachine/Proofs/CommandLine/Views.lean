import CursorMachine.Proofs.CommandLine.Interpretations
import CursorMachine.Proofs.CommandLine.Options

/-!
# Views change what is shown, and nothing else

Main statement: invocations that interpret a program and differ in the view they name come to the
same end, and leave the files as they are; where they succeed, their outputs are the same but for
the machines between the listing and the results (`ends_arguments`).

Up to the machine there is one plan for all of them (`Request.plan_cases_of_interpret`), since the
view has no part in the judgement of a request. From there on the interpretations follow one run
(`Interpretation.exists_run?_eq_report`). An invocation is said to end in an outcome when some fuel
is enough for it; more fuel makes no difference (`Ends.unique`).
-/

namespace CursorMachine.CommandLine

/-! ### Outcomes -/

/-- The invocation comes to this outcome. -/
def Ends (files : FileTree) (working : Location) (args : List String) (o : Outcome) : Prop :=
  ∃ fuel, run? fuel files working args = some o

variable {files : FileTree} {working : Location} {args : List String} {o o' : Outcome}

theorem Plan.run?_add {plan : Plan} {fuel : Nat} (h : plan.run? fuel files working = some o)
    (more : Nat) : plan.run? (fuel + more) files working = some o := by
  unfold run? at h ⊢
  split at h
  next => exact h
  next => exact h
  next => exact h
  next =>
    obtain ⟨r, hr, hfinal⟩ := Option.map_eq_some_iff.1 h
    rw [Interpretation.run?_add hr more]
    exact congrArg some hfinal

theorem run?_add {fuel : Nat} (h : run? fuel files working args = some o) (more : Nat) :
    run? (fuel + more) files working args = some o := by
  unfold run? at h ⊢
  split at h
  next => exact h
  next => exact h
  next => exact h
  next => exact Plan.run?_add h more

/-- **An invocation has one outcome.** -/
theorem Ends.unique (h : Ends files working args o) (h' : Ends files working args o') : o = o' := by
  obtain ⟨fuel, h⟩ := h
  obtain ⟨fuel', h'⟩ := h'
  have hsum := run?_add h' fuel
  rw [Nat.add_comm] at hsum
  exact Option.some.inj ((run?_add h fuel').symm.trans hsum)

theorem run?_of_ofArguments {r : Request} (h : Request.ofArguments args = .ok r) (fuel : Nat) :
    run? fuel files working args =
      (r.plan ((files.read working r.path).mapError FileFault.message)).run? fuel files
        working := by
  rw [run?, h]

/-! ### Plans of one program -/

/-- **The view has no part in what is planned**, but that it is what the interpretation shows. -/
theorem Request.plan_cases_of_interpret {r : Request} (hmode : r.mode = .interpret)
    (content : Except String ByteArray) :
    (∃ shown message, ∀ view : View, { r with view }.plan content = ⟨shown, .fail message⟩) ∨
      ∃ (p : Program) (setup : Setup) (m : Machine setup.cells),
        r.judge content = .ok (p, setup) ∧ Machine.prepare p setup = .ok m ∧
        ∀ view : View, { r with view }.plan content =
          ⟨r.preface p, .interpret { view, session := { program := p, machine := m } }⟩ := by
  have hsame (view : View) : judge { r with view } content = r.judge content := rfl
  rcases hjudge : r.judge content with message | ⟨p, setup⟩
  · exact .inl ⟨"", message, fun view ↦ plan_of_judge_error ((hsame view).trans hjudge)⟩
  · rcases hm : Machine.prepare p setup with e | m
    · refine .inl ⟨r.preface p, e.message, fun view ↦ ?_⟩
      rw [plan_of_judge_ok ((hsame view).trans hjudge), task_of_prepare_error hm,
        String.append_empty]
      rfl
    · refine .inr ⟨p, setup, m, rfl, hm, fun view ↦ ?_⟩
      have hmode' : { r with view }.mode = .interpret := hmode
      rw [plan_of_judge_ok ((hsame view).trans hjudge), task_of_interpret hm hmode',
        String.append_empty]
      rfl

/-! ### Invocations with different views -/

variable {before after : List String} {v₀ : View} {r : Request}

/-- **Invocations with different views fail before anything is run, or follow one run.** -/
theorem run?_arguments_cases (hr : Request.ofArguments (v₀.arguments before after) = .ok r)
    (hmode : r.mode = .interpret) :
    (∃ shown message, ∀ v : View,
        Ends files working (v.arguments before after) ⟨shown, .failure message, files⟩) ∨
      ∃ (bytes : ByteArray) (text : String) (p : Program) (setup : Setup)
        (m : Machine setup.cells),
        files.read working r.path = .ok bytes ∧ String.fromUTF8? bytes = some text ∧
        r.cells = .ok setup.cells ∧ r.inputs.mapM Request.readInput = .ok setup.inputs ∧
        Program.ofText text = .ok p ∧ Machine.prepare p setup = .ok m ∧
        ∀ (v : View) (fuel : Nat), run? fuel files working (v.arguments before after) =
          (Interpretation.run? fuel (r.preface p)
            { view := v, session := { program := p, machine := m } }).map
              fun (shown, ending) ↦ ⟨shown, ending, files⟩ := by
  have hfail : ∀ {args r'} {shown message : String}, Request.ofArguments args = .ok r' →
      r'.plan ((files.read working r'.path).mapError FileFault.message) = ⟨shown, .fail message⟩ →
        Ends files working args ⟨shown, .failure message, files⟩ := by
    intro args r' shown message hr' hplan
    refine ⟨0, ?_⟩
    rw [run?_of_ofArguments hr', hplan]
    rfl
  rcases Request.plan_arguments_cases hr with hview | ⟨message, hfault⟩
  · rcases Request.plan_cases_of_interpret hmode
      ((files.read working r.path).mapError FileFault.message) with
      ⟨shown, message, hplan⟩ | ⟨p, setup, m, hjudge, hm, hplan⟩
    · exact .inl ⟨shown, message, fun v ↦ hfail (hview v) (hplan v)⟩
    · obtain ⟨bytes, text, hcontent, htext, hcells, hinputs, hp⟩ := Request.judge_eq_ok_iff.1 hjudge
      refine .inr ⟨bytes, text, p, setup, m, mapError_eq_ok_iff.1 hcontent, htext, hcells, hinputs,
        hp, hm, fun v fuel ↦ ?_⟩
      rw [run?_of_ofArguments (hview v), hplan]
      rfl
  · refine .inl ⟨"", message ((files.read working r.path).mapError FileFault.message), fun v ↦ ?_⟩
    obtain ⟨r', hr', hpath, hplan⟩ := hfault v
    refine hfail hr' ?_
    rw [hplan, hpath]

/-- What a program shows with each view: an opening and the results of the last machine, and between
them nothing, or the last machine, or all machines, each on its line. -/
structure Shows {size : Nat} (shown : View → String) (opening : String)
    (machines : List (Machine size)) (last : Machine size) : Prop where
  getLast?_eq : machines.getLast? = some last
  lineFeed_not_mem_text : ∀ m ∈ machines, '\n' ∉ m.text.toList
  lineFeed_not_mem_values : '\n' ∉ last.values.toList
  none_eq : shown .none = opening ++ last.results
  final_eq : shown .final = opening ++ (last.text ++ "\n") ++ last.results
  all_eq : shown .all = opening ++ lines machines ++ last.results

/-- **What interpretations of a run report** is what they show of it. -/
theorem shows_report {size : Nat} {p : Program} {s : Session size} {k : Nat} {last : Machine size}
    (hp : p.WellFormed) (hs : s.Follows p p.table)
    (hlast : (s.after k).machine = last) (opening : String) :
    Shows (fun v ↦ (v.report opening (s.history k) (.ok last)).1) opening (s.history k ++ [last])
      last where
  getLast?_eq := List.getLast?_concat ..
  lineFeed_not_mem_text m hm := by
    have hafter : ∃ j, m = (s.after j).machine := by
      rcases List.mem_append.1 hm with hm | hm
      · obtain ⟨j, -, rfl⟩ := List.mem_map.1 hm
        exact ⟨j + 1, rfl⟩
      · exact ⟨k, (List.mem_singleton.1 hm).trans hlast.symm⟩
    obtain ⟨j, rfl⟩ := hafter
    exact Text.lineFeed_not_mem_of_printable ((hs.after j).printable_text hp)
  lineFeed_not_mem_values := Text.lineFeed_not_mem_of_printable last.printable_values
  none_eq := by
    show opening ++ lines [] ++ last.results = _
    rw [lines_nil, String.append_empty]
  final_eq := by
    show opening ++ lines (s.history k ++ [last]).getLast?.toList ++ last.results = _
    rw [List.getLast?_concat, Option.toList_some, lines_singleton]
  all_eq := rfl

/-- **The view changes what is shown, and nothing else.** Take arguments that name a view and ask to
interpret a program, and suppose that the invocation ends. Then the invocations that name the other
views in its place end too, in the same way, and leave the files as they are. If they succeed, the
file was read as a program, the machine was prepared and the run gives a last machine after some
steps; without a view the output is the listing, if that is asked for, and the results; with the
last machine in view, it stands on a line between the two, and with all machines in view those after
each step do, and the last machine once more. -/
theorem ends_arguments (hr : Request.ofArguments (v₀.arguments before after) = .ok r)
    (hmode : r.mode = .interpret) (h : Ends files working (v₀.arguments before after) o) :
    ∃ outcome : View → Outcome, outcome v₀ = o ∧
      (∀ v : View, Ends files working (v.arguments before after) (outcome v) ∧
        (outcome v).ending = o.ending ∧ (outcome v).files = files) ∧
      (o.ending = .success →
        ∃ (bytes : ByteArray) (text : String) (p : Program) (setup : Setup)
          (m last : Machine setup.cells) (fuel k : Nat),
          files.read working r.path = .ok bytes ∧ String.fromUTF8? bytes = some text ∧
          r.cells = .ok setup.cells ∧ r.inputs.mapM Request.readInput = .ok setup.inputs ∧
          Program.ofText text = .ok p ∧ Machine.prepare p setup = .ok m ∧
          ∃ s : Session setup.cells, s = { program := p, machine := m } ∧
            s.run? fuel = some (.ok last) ∧ (s.advance fuel).steps = k ∧
            (s.history k ++ [last]).length = k + 1 ∧
            Shows (fun v ↦ (outcome v).shown) (r.preface p) (s.history k ++ [last]) last) := by
  rcases run?_arguments_cases hr hmode with
    ⟨shown, message, hfails⟩ |
      ⟨bytes, text, p, setup, m, hread, htext, hcells, hinputs, hp, hm, hrun⟩
  · obtain rfl := (hfails v₀).unique h
    exact ⟨fun _ ↦ _, rfl, fun v ↦ ⟨hfails v, rfl, rfl⟩, nofun⟩
  · obtain ⟨fuel₀, hfuel⟩ := h
    rw [hrun] at hfuel
    obtain ⟨_, hinterpreted, -⟩ := Option.map_eq_some_iff.1 hfuel
    obtain ⟨fuel, result, hsession⟩ := Interpretation.exists_run?_session rfl rfl hinterpreted
    obtain ⟨k, hsteps, hlast, hreport⟩ := Interpretation.exists_run?_eq_report rfl rfl hsession
    let s : Session setup.cells := { program := p, machine := m }
    let outcome (v : View) : Outcome :=
      ⟨(v.report (r.preface p) (s.history k) result).1,
        (v.report (r.preface p) (s.history k) result).2, files⟩
    have hends (v : View) : Ends files working (v.arguments before after) (outcome v) := by
      obtain ⟨fuel', hv⟩ := hreport v (r.preface p)
      exact ⟨fuel', by rw [hrun, hv]; rfl⟩
    obtain rfl : o = outcome v₀ := Ends.unique ⟨fuel₀, (hrun v₀ fuel₀).trans hfuel⟩ (hends v₀)
    refine ⟨outcome, rfl, fun v ↦ ⟨hends v, View.ending_report .., rfl⟩, fun hsuccess ↦ ?_⟩
    cases result with
    | error e => cases hsuccess
    | ok last =>
      have hwell := Program.wellFormed_of_ofText hp
      exact ⟨bytes, text, p, setup, m, last, fuel, k, hread, htext, hcells, hinputs, hp, hm, s, rfl,
        hsession, hsteps.trans (Nat.zero_add k), by simp [Session.history],
        shows_report hwell (Session.follows_of_prepare hwell hm) (hlast last rfl) (r.preface p)⟩

/-- A program that prints its only cell, on the three views. -/
theorem ends_arguments_print :
    ∃ (files : FileTree) (outcome : View → Outcome) (state : String) (cells : Nat)
      (machines : List (Machine cells)) (last : Machine cells),
      files = ⟨[(["prog.hra"], .file "print\nexit".toUTF8)]⟩ ∧
      state = "memory=[7] memory_pointer=0 instruction_pointer=1 functions=[]\n" ∧
      (∀ v : View,
        Ends files [] (v.arguments ["-t", "-m", "1"] ["prog.hra", "-i", "7"]) (outcome v) ∧
        (outcome v).ending = .success ∧ (outcome v).files = files) ∧
      (outcome .none).shown = "7\nOutput: 7\n" ∧
      (outcome .final).shown = state ++ "7\nOutput: 7\n" ∧
      (outcome .all).shown = state ++ state ++ "7\nOutput: 7\n" ∧
      Shows (fun v ↦ (outcome v).shown) "" machines last := by
  let files : FileTree := ⟨[(["prog.hra"], .file "print\nexit".toUTF8)]⟩
  let state : String := "memory=[7] memory_pointer=0 instruction_pointer=1 functions=[]\n"
  let args := View.arguments ["-t", "-m", "1"] ["prog.hra", "-i", "7"]
  have hnone : Ends files [] (args .none) ⟨"7\nOutput: 7\n", .success, files⟩ :=
    ⟨2, by decide +kernel⟩
  have hfinal : Ends files [] (args .final) ⟨state ++ "7\nOutput: 7\n", .success, files⟩ :=
    ⟨2, by decide +kernel⟩
  have hall : Ends files [] (args .all) ⟨state ++ state ++ "7\nOutput: 7\n", .success, files⟩ :=
    ⟨3, by decide +kernel⟩
  obtain ⟨outcome, houtcome, hviews, hshows⟩ := ends_arguments
    (r := ⟨"prog.hra", .interpret, "1", ["7"], .none, none, "_start", false, false⟩) (by rfl) rfl
    hnone
  obtain ⟨_, _, p, setup, _, last, _, k, -, -, -, -, -, -, s, -, -, -, -, hshown⟩ := hshows rfl
  exact ⟨files, outcome, state, setup.cells, s.history k ++ [last], last, rfl, rfl, hviews,
    congrArg Outcome.shown houtcome, congrArg Outcome.shown ((hviews .final).1.unique hfinal),
    congrArg Outcome.shown ((hviews .all).1.unique hall), hshown⟩

end CursorMachine.CommandLine
