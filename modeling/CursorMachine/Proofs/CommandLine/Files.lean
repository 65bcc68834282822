import CursorMachine.Proofs.CommandLine.Plans

/-!
# What an invocation does to the files

Main statement: an invocation that fails leaves every file as it was, and so does every
interpretation; a compilation that succeeds changes the chosen output and no other file
(`files_of_run?`).

There is one way to change a file at all, `Task.write`, and only the task of a request to compile
can be that, once everything that can fail before has succeeded. What is left to show is that a
write whose target cannot be opened changes nothing, and that a write to a file changes that file
only (`FileTree.changedAt_put`). A write to a file that was opened does not fail here; only a device
can refuse what is written to it.
-/

namespace CursorMachine.CommandLine

/-! ### Writing to a tree -/

namespace FileTree

variable {t t' : FileTree} {location : Location} {content : ByteArray} {text more : String}

/-- The second tree is the first but for one location, which holds a file with this content. -/
structure ChangedAt (t : FileTree) (location : Location) (content : ByteArray) (t' : FileTree) :
    Prop where
  entry?_eq : t'.entry? location = some (.file content)
  entry?_of_ne : ∀ other, other ≠ location → t'.entry? other = t.entry? other

theorem lookup_filter_of_ne {other : Location} (h : other ≠ location)
    (entries : List (Location × Entry)) :
    (entries.filter (·.1 != location)).lookup other = entries.lookup other := by
  induction entries with
  | nil => rfl
  | cons entry entries ih =>
    obtain ⟨here, e⟩ := entry
    by_cases hhere : here = location
    · have hother : (other == here) = false := by simpa [hhere] using h
      rw [List.filter_cons_of_neg (by simp [hhere]), ih, List.lookup_cons, hother]
    · rw [List.filter_cons_of_pos (by simpa using hhere), List.lookup_cons, List.lookup_cons, ih]

/-- **A file that is put changes the tree where it is put**, and nowhere else. -/
theorem changedAt_put (h : location ≠ []) :
    t.ChangedAt location content (t.put location content) where
  entry?_eq := by
    rw [entry?_of_ne_root h, put, List.lookup_cons, beq_self_eq_true]
  entry?_of_ne other hother := by
    by_cases hroot : other = []
    · rw [hroot]
      rfl
    · have hhead : (other == location) = false := by simpa using hother
      rw [entry?_of_ne_root hroot, entry?_of_ne_root hroot, put, List.lookup_cons, hhead,
        lookup_filter_of_ne hother]

/-- The root is not opened for writing. -/
theorem ne_root_of_target {working : Location} {path : String}
    (h : t.target working path = .ok location) : location ≠ [] := by
  rintro rfl
  unfold target at h
  dsimp only at h
  split at h
  · obtain ⟨⟨⟩, -, h⟩ := bind_eq_ok_iff.1 h
    cases h
  · obtain ⟨here, -, h⟩ := bind_eq_ok_iff.1 h
    split at h
    · cases h
    next hdirectory =>
      cases h
      exact hdirectory rfl

/-- **Writing changes the file that was opened**, and a device takes what is written and stays. -/
theorem fill_cases (hne : location ≠ []) (h : t.fill location text = .ok (t', more)) :
    (∃ d, t.entry? location = some (.device d) ∧ t' = t) ∨
      t.ChangedAt location text.toUTF8 t' ∧ more = "" := by
  unfold fill at h
  split at h
  next hentry =>
    cases h
    exact .inl ⟨_, hentry, rfl⟩
  next => cases h
  next hentry =>
    cases h
    exact .inl ⟨_, hentry, rfl⟩
  next =>
    cases h
    exact .inr ⟨changedAt_put hne, rfl⟩

end FileTree

/-! ### Plans and files -/

variable {fuel : Nat} {files : FileTree} {working : Location} {o : Outcome}

theorem Ending.status_eq_zero_iff {ending : Ending} : ending.status = 0 ↔ ending = .success := by
  cases ending <;> simp [status]

/-- **Only a write that succeeds changes a file.** -/
theorem Plan.files_eq_or_write {plan : Plan} (h : plan.run? fuel files working = some o) :
    o.files = files ∨ (∃ path text, plan.task = .write path text) ∧ o.ending = .success := by
  unfold run? at h
  split at h
  next => cases h; exact .inl rfl
  next => cases h; exact .inl rfl
  next path text htask =>
    split at h
    next => cases h; exact .inl rfl
    next =>
      split at h
      next => cases h; exact .inl rfl
      next =>
        cases h
        exact .inr ⟨⟨path, text, htask⟩, rfl⟩
  next =>
    obtain ⟨-, -, rfl⟩ := Option.map_eq_some_iff.1 h
    exact .inl rfl

theorem Plan.ending_of_fail {shown message : String}
    (h : Plan.run? fuel files working ⟨shown, .fail message⟩ = some o) :
    o.ending = .failure message := by
  cases h
  rfl

namespace Request

variable {r : Request} {content : Except String ByteArray} {p : Program} {setup : Setup}

/-- What a successful compilation comes to: the preface is shown and the assembly goes where it is
wanted, to where everything is shown, to a file, or to a device. -/
inductive Delivers (r : Request) (files : FileTree) (working : Location)
    (preface assembly : String) : Outcome → Prop where
  | shown (h : r.output = some "-") :
      Delivers r files working preface assembly ⟨preface ++ assembly, .success, files⟩
  | file {location : Location} {files' : FileTree} (h : r.output ≠ some "-")
      (htarget :
        files.target working (r.output.getD (Path.withExtension r.path "s")) = .ok location)
      (hchanged : files.ChangedAt location assembly.toUTF8 files') :
      Delivers r files working preface assembly ⟨preface, .success, files'⟩
  | device {location : Location} {d : Device} {more : String} (h : r.output ≠ some "-")
      (htarget :
        files.target working (r.output.getD (Path.withExtension r.path "s")) = .ok location)
      (hdevice : files.entry? location = some (.device d))
      (hmore : files.fill location assembly = .ok (files, more)) :
      Delivers r files working preface assembly ⟨preface ++ more, .success, files⟩

/-- The task of a request to interpret is no write. -/
theorem task_ne_write_of_interpret (hmode : r.mode = .interpret) (path text : String) :
    (r.task p setup).2 ≠ .write path text := by
  rcases hm : Machine.prepare p setup with e | m
  · simp [task_of_prepare_error hm]
  · simp [task_of_interpret hm hmode]

theorem plan_ne_write_of_interpret (hmode : r.mode = .interpret) (content : Except String ByteArray)
    (path text : String) : (r.plan content).task ≠ .write path text := by
  rcases hjudge : r.judge content with message | ⟨p, setup⟩
  · simp [plan_of_judge_error hjudge]
  · rw [plan_of_judge_ok hjudge]
    exact task_ne_write_of_interpret hmode path text

theorem destination_cases (r : Request) :
    r.output = some "-" ∧ r.destination = none ∨
      r.output ≠ some "-" ∧
        r.destination = some (r.output.getD (Path.withExtension r.path "s")) := by
  unfold destination
  split
  next h => exact .inl ⟨h, rfl⟩
  next path hne h =>
    rw [h]
    exact .inr ⟨fun heq ↦ hne (Option.some.inj heq), rfl⟩
  next h =>
    rw [h]
    exact .inr ⟨nofun, rfl⟩

/-- **A compilation that succeeds delivers its assembly.** -/
theorem delivers_of_run? {m : Machine setup.cells} {lines : List Arm.Line} {shown : String}
    (hmode : r.mode = .compile) (hm : Machine.prepare p setup = .ok m)
    (hlines : Arm.generate p m.layout ⟨r.entry, r.comments⟩ setup.inputs = .ok lines)
    (h : Plan.run? fuel files working ⟨shown ++ (r.task p setup).1, (r.task p setup).2⟩ = some o)
    (hok : o.ending = .success) : r.Delivers files working shown (Arm.text lines) o := by
  rw [task_of_generate_ok hm hmode hlines] at h
  rcases r.destination_cases with ⟨houtput, hdest⟩ | ⟨houtput, hdest⟩
  · rw [hdest] at h
    cases h
    exact .shown houtput
  · rw [hdest] at h
    unfold Plan.run? at h
    dsimp only at h
    rw [String.append_empty] at h
    split at h
    next fault _ =>
      cases h
      cases hok
    next location htarget =>
      split at h
      next fault _ =>
        cases h
        cases hok
      next files' more hfill =>
        cases h
        rcases FileTree.fill_cases (FileTree.ne_root_of_target htarget) hfill with
          ⟨d, hdevice, rfl⟩ | ⟨hchanged, rfl⟩
        · exact .device houtput htarget hdevice hfill
        · rw [String.append_empty]
          exact .file houtput htarget hchanged

/-- **What a compilation that succeeds has read and made**, and that it delivers it. -/
theorem exists_delivers_of_run? (hmode : r.mode = .compile)
    (h : (r.plan content).run? fuel files working = some o) (hok : o.ending = .success) :
    ∃ (bytes : ByteArray) (text : String) (p : Program) (setup : Setup) (m : Machine setup.cells)
      (lines : List Arm.Line),
      content = .ok bytes ∧ String.fromUTF8? bytes = some text ∧ r.cells = .ok setup.cells ∧
      r.inputs.mapM readInput = .ok setup.inputs ∧ Program.ofText text = .ok p ∧
      Machine.prepare p setup = .ok m ∧
      Arm.generate p m.layout ⟨r.entry, r.comments⟩ setup.inputs = .ok lines ∧
      r.Delivers files working (r.preface p) (Arm.text lines) o := by
  have hno : ∀ {shown message}, Plan.run? fuel files working ⟨shown, .fail message⟩ ≠ some o := by
    intro shown message hfail
    cases (Plan.ending_of_fail hfail).symm.trans hok
  rcases hjudge : r.judge content with message | ⟨p, setup⟩
  · rw [plan_of_judge_error hjudge] at h
    exact absurd h hno
  · rw [plan_of_judge_ok hjudge] at h
    rcases hm : Machine.prepare p setup with e | m
    · rw [task_of_prepare_error hm] at h
      exact absurd h hno
    · rcases hlines : Arm.generate p m.layout ⟨r.entry, r.comments⟩ setup.inputs with e | lines
      · rw [task_of_generate_error hm hmode hlines] at h
        exact absurd h hno
      · obtain ⟨bytes, text, hcontent, htext, hcells, hinputs, hp⟩ := judge_eq_ok_iff.1 hjudge
        exact ⟨bytes, text, p, setup, m, lines, hcontent, htext, hcells, hinputs, hp, hm, hlines,
          delivers_of_run? hmode hm hlines h hok⟩

end Request

/-! ### Invocations and files -/

/-- **What an invocation does to the files.** If it fails, for whatever reason, they are as they
were. If it interprets a program they are as they were, and while it goes on too, for nothing is
written. If it compiles a program and succeeds, the file was read as a text and the text as a
program, the machine was prepared and the program lowered, and the assembly is delivered: it is
shown after the listing and the files are as they were, or it is the content of the chosen output,
which is the only file that is different, unless the chosen output is a device. -/
theorem files_of_run? {args : List String} (h : run? fuel files working args = some o) :
    (o.ending.status ≠ 0 → o.files = files) ∧
      (∀ r, Request.ofArguments args = .ok r → r.mode = .interpret →
        o.files = files ∧ ∀ content path text, (r.plan content).task ≠ .write path text) ∧
      ∀ r, Request.ofArguments args = .ok r → r.mode = .compile → o.ending.status = 0 →
        ∃ (bytes : ByteArray) (text : String) (p : Program) (setup : Setup)
          (m : Machine setup.cells) (lines : List Arm.Line),
          files.read working r.path = .ok bytes ∧ String.fromUTF8? bytes = some text ∧
          r.cells = .ok setup.cells ∧ r.inputs.mapM Request.readInput = .ok setup.inputs ∧
          Program.ofText text = .ok p ∧ Machine.prepare p setup = .ok m ∧
          Arm.generate p m.layout ⟨r.entry, r.comments⟩ setup.inputs = .ok lines ∧
          r.Delivers files working (r.preface p) (Arm.text lines) o := by
  unfold run? at h
  rcases hargs : Request.ofArguments args with stop | r
  · -- Without a request there is nothing to do.
    have hfiles : o.files = files := by
      rw [hargs] at h
      cases stop <;> cases h <;> rfl
    exact ⟨fun _ ↦ hfiles, nofun, nofun⟩
  · rw [hargs] at h
    dsimp only at h
    have hcases := Plan.files_eq_or_write h
    refine ⟨fun hne ↦ ?_, ?_, ?_⟩
    · rcases hcases with hfiles | ⟨-, hok⟩
      · exact hfiles
      · exact absurd (Ending.status_eq_zero_iff.2 hok) hne
    · rintro _ ⟨⟩ hmode
      have hno := r.plan_ne_write_of_interpret hmode
      refine ⟨?_, hno⟩
      rcases hcases with hfiles | ⟨⟨path, text, htask⟩, -⟩
      · exact hfiles
      · exact absurd htask (hno _ path text)
    · rintro _ ⟨⟩ hmode hok
      obtain ⟨bytes, text, p, setup, m, lines, hcontent, hrest⟩ :=
        Request.exists_delivers_of_run? hmode h (Ending.status_eq_zero_iff.1 hok)
      exact ⟨bytes, text, p, setup, m, lines, mapError_eq_ok_iff.1 hcontent, hrest⟩

/-- A compilation to a directory that is not there, an interpretation, and a compilation beside the
program. -/
theorem files_of_run?_each :
    ∃ (files : FileTree) (failed interpreted compiled : Outcome) (lines : List Arm.Line),
      files = ⟨[(["prog.hra"], .file "print\nexit".toUTF8)]⟩ ∧
      run? 0 files [] ["-c", "-o", "out/prog.s", "prog.hra"] = some failed ∧
      failed.ending.status = 1 ∧ failed.files = files ∧
      run? 2 files [] ["-t", "prog.hra", "-i", "7"] = some interpreted ∧
      interpreted.shown = "7\nOutput: 7\n" ∧ interpreted.files = files ∧
      run? 0 files [] ["-c", "prog.hra"] = some compiled ∧ compiled.ending.status = 0 ∧
      files.ChangedAt ["prog.s"] (Arm.text lines).toUTF8 compiled.files := by
  let files : FileTree := ⟨[(["prog.hra"], .file "print\nexit".toUTF8)]⟩
  obtain ⟨failed, hfailed, hfailure⟩ : ∃ o,
      run? 0 files [] ["-c", "-o", "out/prog.s", "prog.hra"] = some o ∧ o.ending.status = 1 :=
    Option.map_eq_some_iff.1
      (show (run? 0 files [] ["-c", "-o", "out/prog.s", "prog.hra"]).map (·.ending.status) =
        some 1 by decide +kernel)
  obtain ⟨compiled, hcompiled, hsuccess⟩ : ∃ o,
      run? 0 files [] ["-c", "prog.hra"] = some o ∧ o.ending.status = 0 :=
    Option.map_eq_some_iff.1
      (show (run? 0 files [] ["-c", "prog.hra"]).map (·.ending.status) = some 0 by decide +kernel)
  have hinterpreted : run? 2 files [] ["-t", "prog.hra", "-i", "7"] =
      some ⟨"7\nOutput: 7\n", .success, files⟩ := by
    decide +kernel
  have hkept : failed.files = files := (files_of_run? hfailed).1 (by rw [hfailure]; decide)
  have hread := ((files_of_run? hinterpreted).2.1
    ⟨"prog.hra", .interpret, "32", ["7"], .none, none, "_start", false, false⟩ (by rfl) rfl).1
  obtain ⟨_, _, _, _, _, lines, -, -, -, -, -, -, -, hdelivers⟩ :=
    (files_of_run? hcompiled).2.2
      ⟨"prog.hra", .compile, "32", [], .none, none, "_start", false, false⟩ (by rfl) rfl hsuccess
  refine ⟨files, failed, _, compiled, lines, rfl, hfailed, hfailure, hkept, hinterpreted, rfl,
    hread, hcompiled, hsuccess, ?_⟩
  have htarget : files.target [] (Path.withExtension "prog.hra" "s") = .ok ["prog.s"] := by rfl
  rcases hdelivers with h | ⟨h, hwhere, hchanged⟩ | ⟨h, hwhere, hdevice, hmore⟩
  · cases h
  · obtain rfl := Except.ok.inj (htarget.symm.trans hwhere)
    exact hchanged
  · obtain rfl := Except.ok.inj (htarget.symm.trans hwhere)
    cases hdevice

end CursorMachine.CommandLine
