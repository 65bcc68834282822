import CursorMachine.Proofs.CommandLine.Files
import CursorMachine.Proofs.Lowering.Checks
import CursorMachine.Proofs.Lowering.Listing
import CursorMachine.Proofs.Reading.LeftmostScan
import CursorMachine.Proofs.Reading.Rows

/-!
# The path that assembly goes to by default

Without a chosen output, assembly goes to a path made from the path of the program: the extension of
its last name becomes `s`. Main statement: that path leads to another place than the program, unless
the name has this extension already. Then a compilation that succeeds puts the assembly in the place
of the program, and the program is lost (`exists_run?_keeps_iff`).

A path is a folder and a last name (`Path.exists_folder`). Another extension is another last name in
the same folder (`Path.withExtension_append`), and from one directory different names lead to
different places (`FileTree.onward_eq_iff`), so what is asked of the two paths is asked of two
names. The last name of a file is neither a single dot nor two, as files have a directory above
them.

That the program is lost, and not by chance the same as its assembly, is because assembly starts
with a remark and no program does (`Arm.ofText_text_of_generate`).
-/

namespace CursorMachine

/-! ### Assembly is no program -/

/-- A text whose first word starts no keyword is refused for that word. -/
theorem Program.ofText_of_logicalLines {text w : String} {ws : List String}
    {wss : List (List String)} (h : logicalLines text = (w :: ws) :: wss)
    (hw : ∀ k : Keyword, k.words.head? ≠ some w) :
    Program.ofText text = .error (.unknownInstruction 1 w) := by
  rw [Program.ofText, Token.rows, h, List.mapIdx_cons, Token.ofWords_cons_of_head?_ne hw]
  rfl

namespace Arm

variable {p : Program} {layout : Layout} {options : Options} {inputs : List Cell}

/-- Lowered code starts with a remark, so the first word of its text is what remarks start with. -/
theorem exists_logicalLines_text_lower (hp : p.WellFormed)
    (h : Text.isIdentifier options.entry = true) :
    ∃ ws wss, logicalLines (text (lower p layout options inputs)) = (remarkMark :: ws) :: wss := by
  obtain ⟨r, code, hlower⟩ : ∃ r code, lower p layout options inputs = .remark r :: code :=
    ⟨_, _, rfl⟩
  have hmark : Text.IsWord remarkMark := by decide
  have hwords : Text.words (Line.remark r).text.toList =
      remarkMark.toList :: Text.words (' ' :: r.toList) := by
    have hremark : (Line.remark r).text.toList = remarkMark.toList ++ ' ' :: r.toList := by
      simp [Line.text]
    rw [hremark]
    refine Text.words_append hmark.1 hmark.2 ?_
    rintro c ⟨⟩
    decide
  have hlogical (ws : List (List Char)) : isLogical (remarkMark.toList :: ws) = true := rfl
  rw [logicalLines, lines_text (allSpelled_lower hp layout inputs h), hlower, List.map_cons,
    List.cons_append, List.map_cons, hwords, List.filter_cons_of_pos (hlogical _), List.map_cons,
    List.map_cons, String.ofList_toList]
  exact ⟨_, _, rfl⟩

/-- **Assembly is no program.** -/
theorem ofText_text_of_generate {source : String} {lines : List Line}
    (hp : Program.ofText source = .ok p) (h : generate p layout options inputs = .ok lines) :
    Program.ofText (text lines) = .error (.unknownInstruction 1 remarkMark) := by
  obtain ⟨haccepts, -, rfl⟩ := generate_eq_ok_iff.1 h
  have hmark : ∀ k ∈ Keyword.all, k.words.head? ≠ some remarkMark := by decide
  obtain ⟨ws, wss, hlines⟩ :=
    exists_logicalLines_text_lower (Program.wellFormed_of_ofText hp) haccepts.isIdentifier
  exact Program.ofText_of_logicalLines hlines fun k ↦ hmark k (Keyword.mem_all k)

end Arm

namespace CommandLine

theorem ofList_eq_iff {l : List Char} {s : String} : String.ofList l = s ↔ l = s.toList := by
  rw [← String.toList_inj, String.toList_ofList]

/-! ### Paths and their last names -/

namespace Path

/-- The last name of a path has an extension: it is a stem, a dot and the extension. A stem that is
empty or a single dot is none. -/
def HasExtension (path ext : String) : Prop :=
  ∃ stem, (names path).getLast? = some (stem ++ "." ++ ext) ∧ stem ≠ "" ∧ stem ≠ "."

/-- What comes before a last name: nothing, or something that ends in a slash. -/
def IsFolder (folder : List Char) : Prop :=
  ∀ c ∈ folder.getLast?, c = '/'

/-- A last name that leads to a place of its own: neither nothing, nor one dot, nor two. -/
structure IsProper (name : List Char) : Prop where
  slash_not_mem : '/' ∉ name
  ne_nil : name ≠ []
  ne_dot : name ≠ ['.']
  ne_dots : name ≠ ['.', '.']

variable {folder name : List Char}

/-- Every path has a last name. -/
theorem exists_folder (path : String) :
    ∃ folder name, path = String.ofList (folder ++ name) ∧ IsFolder folder ∧ '/' ∉ name := by
  refine ⟨(path.toList.reverse.dropWhile (· != '/')).reverse,
    (path.toList.reverse.takeWhile (· != '/')).reverse, ?_, ?_, ?_⟩
  · rw [← List.reverse_append, List.takeWhile_append_dropWhile, List.reverse_reverse,
      String.ofList_toList]
  · intro c hc
    rw [List.getLast?_reverse] at hc
    have hnot := List.head?_dropWhile_not (· != '/') path.toList.reverse
    rw [Option.mem_def.1 hc] at hnot
    simpa using hnot
  · rw [List.mem_reverse]
    intro hmem
    simpa using List.all_eq_true.1 List.all_takeWhile '/' hmem

/-- The names before the last one do not depend on the last one. -/
theorem exists_names_append (hfolder : IsFolder folder) :
    ∃ before, ∀ name, '/' ∉ name →
      names (String.ofList (folder ++ name)) = before ++ [String.ofList name] := by
  have hsingle : ∀ name : List Char, '/' ∉ name → name.splitOn '/' = [name] := by
    intro name hname
    refine List.splitOnP_eq_singleton fun c hc ↦ ?_
    rw [beq_eq_false_iff_ne]
    rintro rfl
    exact hname hc
  rcases List.eq_nil_or_concat folder with rfl | ⟨front, c, rfl⟩
  · refine ⟨[], fun name hname ↦ ?_⟩
    rw [names, List.nil_append, String.toList_ofList, hsingle name hname]
    rfl
  · obtain rfl : c = '/' := hfolder c (by simp)
    refine ⟨(front.splitOn '/').map String.ofList, fun name hname ↦ ?_⟩
    have hsplit : (front ++ '/' :: name).splitOn '/' = front.splitOn '/' ++ name.splitOn '/' :=
      List.splitOnP_append_cons front name (by simp)
    rw [names, String.toList_ofList, List.concat_append, hsplit, hsingle name hname,
      List.map_append]
    rfl

/-- Where a path starts does not depend on its last name. -/
theorem isAbsolute_append (hname : '/' ∉ name) :
    isAbsolute (String.ofList (folder ++ name)) = isAbsolute (String.ofList folder) := by
  rw [isAbsolute, isAbsolute, String.toList_ofList, String.toList_ofList]
  cases folder with
  | cons c folder => rfl
  | nil =>
    cases name with
    | nil => rfl
    | cons c name =>
      have hc : c ≠ '/' := fun h ↦ hname (h ▸ List.mem_cons_self)
      simpa using hc

/-- A last name with another extension. -/
def renamed (name ext : List Char) : List Char :=
  if dropExtension name.reverse = ['.'] then ['.', '.']
  else (dropExtension name.reverse).reverse ++ '.' :: ext

theorem dropTrailing_append (h : IsProper name) (cs : List Char) :
    dropTrailing (name.reverse ++ cs) = name.reverse ++ cs := by
  have hslash : '/' ∉ name.reverse := fun hmem ↦ h.slash_not_mem (List.mem_reverse.1 hmem)
  unfold dropTrailing
  rcases hrev : name.reverse with _ | ⟨c, _ | ⟨d, rest⟩⟩
  · exact absurd (List.reverse_eq_nil_iff.1 hrev) h.ne_nil
  · have hdot : c ≠ '.' := by
      rintro rfl
      exact h.ne_dot (List.reverse_eq_iff.1 hrev)
    rw [hrev, List.mem_singleton] at hslash
    split
    next heq => exact absurd (List.cons.inj heq).1.symm hslash
    next heq => exact absurd (List.cons.inj heq).1 hdot
    next => rfl
  · rw [hrev, List.mem_cons, List.mem_cons, not_or, not_or] at hslash
    split
    next heq => exact absurd (List.cons.inj heq).1.symm hslash.1
    next heq => exact absurd (List.cons.inj (List.cons.inj heq).2).1.symm hslash.2.1
    next => rfl

/-- **Another extension is another last name.** -/
theorem withExtension_append (hfolder : IsFolder folder) (h : IsProper name) (ext : String) :
    withExtension (String.ofList (folder ++ name)) ext =
      String.ofList (folder ++ renamed name ext.toList) := by
  have hname : ∀ c ∈ name.reverse, (c != '/') = true := by
    intro c hc
    rw [bne_iff_ne]
    rintro rfl
    exact h.slash_not_mem (List.mem_reverse.1 hc)
  have htake : folder.reverse.takeWhile (· != '/') = [] ∧
      folder.reverse.dropWhile (· != '/') = folder.reverse := by
    rcases hrev : folder.reverse with _ | ⟨c, rest⟩
    · exact ⟨rfl, rfl⟩
    · obtain rfl : c = '/' := hfolder c (by rw [List.getLast?_eq_head?_reverse, hrev]; rfl)
      exact ⟨rfl, rfl⟩
  have hregular : ¬(name.reverse = [] ∨ name.reverse = ['.'] ∨ name.reverse = ['.', '.']) := by
    simp only [List.reverse_eq_iff]
    rintro (hname | hname | hname)
    exacts [h.ne_nil hname, h.ne_dot hname, h.ne_dots hname]
  unfold withExtension renamed
  dsimp only
  rw [String.toList_ofList, List.reverse_append, dropTrailing_append h,
    List.takeWhile_append_of_pos hname, List.dropWhile_append_of_pos hname, htake.1, htake.2,
    List.append_nil, if_neg hregular]
  split
  · simp
  · simp [← String.toList_inj]

/-- An extension that is dropped leaves the stem. -/
theorem dropExtension_append {stem ext : List Char} (hext : '.' ∉ ext) (hstem : stem ≠ []) :
    dropExtension (stem ++ '.' :: ext).reverse = stem.reverse := by
  have hbefore : ∀ c ∈ ext.reverse, (c != '.') = true := by
    intro c hc
    rw [bne_iff_ne]
    rintro rfl
    exact hext (List.mem_reverse.1 hc)
  obtain ⟨c, cs, hrev⟩ := List.exists_cons_of_ne_nil (mt List.reverse_eq_nil_iff.1 hstem)
  rw [dropExtension, List.reverse_append, List.reverse_cons, List.append_assoc,
    List.dropWhile_append_of_pos hbefore, hrev]
  rfl

theorem dropExtension_ne_nil {name : List Char} (h : name ≠ []) : dropExtension name ≠ [] := by
  unfold dropExtension
  split
  · exact List.cons_ne_nil _ _
  · exact h

theorem renamed_eq_self_iff {ext : List Char} (hext : '.' ∉ ext) (h : IsProper name) :
    renamed name ext = name ↔ ∃ stem, name = stem ++ '.' :: ext ∧ stem ≠ [] ∧ stem ≠ ['.'] := by
  unfold renamed
  constructor
  · split
    · exact fun hdots ↦ absurd hdots.symm h.ne_dots
    next hdot =>
      refine fun hself ↦ ⟨_, hself.symm, ?_, ?_⟩
      · exact mt List.reverse_eq_nil_iff.1
          (dropExtension_ne_nil (mt List.reverse_eq_nil_iff.1 h.ne_nil))
      · exact mt List.reverse_eq_iff.1 hdot
  · rintro ⟨stem, rfl, hne, hdot⟩
    rw [dropExtension_append hext hne, List.reverse_reverse,
      if_neg (mt List.reverse_eq_iff.1 hdot)]

theorem hasExtension_iff (hfolder : IsFolder folder) (hname : '/' ∉ name) {ext : String} :
    HasExtension (String.ofList (folder ++ name)) ext ↔
      ∃ stem, name = stem ++ '.' :: ext.toList ∧ stem ≠ [] ∧ stem ≠ ['.'] := by
  obtain ⟨before, hnames⟩ := exists_names_append hfolder
  rw [HasExtension, hnames name hname, List.getLast?_concat]
  constructor
  · rintro ⟨stem, hstem, hne, hdot⟩
    refine ⟨stem.toList, ?_, mt String.toList_eq_nil_iff.1 hne,
      mt (@String.toList_inj stem ".").1 hdot⟩
    rw [ofList_eq_iff.1 (Option.some.inj hstem), String.toList_append, String.toList_append,
      List.append_assoc]
    rfl
  · rintro ⟨stem, rfl, hne, hdot⟩
    refine ⟨String.ofList stem, ?_, mt ofList_eq_iff.1 hne, mt ofList_eq_iff.1 hdot⟩
    rw [Option.some_inj, ofList_eq_iff, String.toList_append, String.toList_append,
      String.toList_ofList, List.append_assoc]
    rfl

theorem slash_not_mem_renamed {ext : List Char} (hext : '/' ∉ ext) (h : '/' ∉ name) :
    '/' ∉ renamed name ext := by
  have hsub : ∀ c ∈ dropExtension name.reverse, c ∈ name.reverse := by
    intro c hc
    unfold dropExtension at hc
    split at hc
    next d e es heq =>
      exact (List.dropWhile_sublist _).subset (heq ▸ List.mem_cons_of_mem _ hc)
    · exact hc
  unfold renamed
  split
  · decide
  · rw [List.mem_append, List.mem_reverse, List.mem_cons]
    rintro (hmem | hmem | hmem)
    · exact h (List.mem_reverse.1 (hsub _ hmem))
    · cases hmem
    · exact hext hmem

/-- A name with another extension is too long to stay in place. -/
theorem two_le_length_renamed {ext : List Char} (h : name ≠ []) :
    2 ≤ (renamed name ext).length := by
  have hpos := List.length_pos_of_ne_nil
    (dropExtension_ne_nil (mt List.reverse_eq_nil_iff.1 h))
  unfold renamed
  split
  · decide
  · simp only [List.length_append, List.length_reverse, List.length_cons]
    omega

end Path

/-! ### Where paths lead -/

namespace FileTree

variable {t : FileTree} {here there location : Location} {content : ByteArray}

/-- A place holds a file with this content. -/
def HasFile (t : FileTree) (location : Location) (content : ByteArray) : Prop :=
  t.entry? location = some (.file content)

/-- What is above something is a directory. -/
def IsTree (t : FileTree) : Prop :=
  ∀ location, t.entry? location ≠ none → t.entry? location.dropLast = some .directory

theorem isTree_of_forall_entries
    (h : ∀ entry ∈ t.entries, t.entry? entry.1.dropLast = some .directory) : t.IsTree := by
  intro location hne
  by_cases hroot : location = []
  · rw [hroot]
    rfl
  · rw [entry?_of_ne_root hroot, Ne, List.lookup_eq_none_iff] at hne
    simp only [not_forall] at hne
    obtain ⟨entry, hentry, hsame⟩ := hne
    have hlocation : location = entry.1 := by simpa using hsame
    rw [hlocation]
    exact h entry hentry

theorem follow_append (here : Location) (before after : List String) :
    t.follow here (before ++ after) = (t.follow here before).bind (t.follow · after) := by
  induction before generalizing here with
  | nil => rfl
  | cons name before ih =>
    rw [List.cons_append, follow, follow]
    split
    · rfl
    · split
      · exact ih here
      · split
        · exact ih here.dropLast
        · split
          · rfl
          · exact ih (here ++ [name])
    · rfl

/-- Where a name leads from a directory. -/
def onward (here : Location) (name : String) : Location :=
  if name = "" ∨ name = "." then here
  else if name = ".." then here.dropLast
  else here ++ [name]

theorem follow_singleton {name : String} (h : t.follow here [name] = .ok location) :
    t.entry? here = some .directory ∧ location = onward here name := by
  unfold follow at h
  split at h
  next => cases h
  next hhere =>
    refine ⟨hhere, ?_⟩
    unfold onward
    split at h
    next hstay =>
      cases h
      rw [if_pos hstay]
    next hstay =>
      rw [if_neg hstay]
      split at h
      next hup =>
        cases h
        rw [if_pos hup]
      next hup =>
        rw [if_neg hup]
        split at h
        · cases h
        · cases h
          rfl
  next => cases h

/-- A path leads where its last name leads from the directory that the other names lead to. -/
theorem exists_follow_of_resolve {working : Location} {path name : String} {before : List String}
    (h : t.resolve working path (before ++ [name]) = .ok location) :
    ∃ there, t.follow (if Path.isAbsolute path then [] else working) before = .ok there ∧
      t.entry? there = some .directory ∧ location = onward there name := by
  unfold resolve at h
  split at h
  · cases h
  · split at h
    · cases h
    · rw [follow_append] at h
      obtain ⟨there, hthere, hlast⟩ := bind_eq_ok_iff.1 h
      obtain ⟨hdir, hlocation⟩ := follow_singleton hlast
      exact ⟨there, hthere, hdir, hlocation⟩

theorem resolve_of_target {working : Location} {path : String}
    (h : t.target working path = .ok location) :
    t.resolve working path (Path.names path) = .ok location := by
  unfold target at h
  dsimp only at h
  split at h
  · obtain ⟨⟨⟩, -, h⟩ := bind_eq_ok_iff.1 h
    cases h
  · obtain ⟨here, hhere, h⟩ := bind_eq_ok_iff.1 h
    split at h
    · cases h
    · cases h
      exact hhere

/-- A name that stays in place or goes up leads to a directory. -/
theorem IsTree.entry?_onward (ht : t.IsTree) (hthere : t.entry? there = some .directory)
    {name : List Char} (hslash : '/' ∉ name) (h : ¬Path.IsProper name) :
    t.entry? (onward there (String.ofList name)) = some .directory := by
  have hdots : name = [] ∨ name = ['.'] ∨ name = ['.', '.'] := by
    by_contra hno
    rw [not_or, not_or] at hno
    exact h ⟨hslash, hno.1, hno.2.1, hno.2.2⟩
  rcases hdots with rfl | rfl | rfl
  · exact hthere
  · exact hthere
  · exact ht there (by simp [hthere])

/-- A proper name leads to the place of that name alone. -/
theorem onward_eq_iff {name new : List Char} (h : Path.IsProper name) (hnew : 2 ≤ new.length) :
    onward there (String.ofList new) = onward there (String.ofList name) ↔ new = name := by
  have hproper : onward there (String.ofList name) = there ++ [String.ofList name] := by
    rw [onward, if_neg (not_or.2 ⟨mt ofList_eq_iff.1 h.ne_nil, mt ofList_eq_iff.1 h.ne_dot⟩),
      if_neg (mt ofList_eq_iff.1 h.ne_dots)]
  rw [hproper]
  constructor
  · intro heq
    unfold onward at heq
    split at heq
    next hstay =>
      rcases hstay with hstay | hstay
      · rw [ofList_eq_iff.1 hstay] at hnew
        exact absurd hnew (by decide)
      · rw [ofList_eq_iff.1 hstay] at hnew
        exact absurd hnew (by decide)
    next =>
      split at heq
      · have hlength := congrArg List.length heq
        rw [List.length_dropLast, List.length_append, List.length_singleton] at hlength
        omega
      · have hlast := List.append_cancel_left heq
        exact String.ofList_injective (List.singleton_inj.1 hlast)
  · rintro rfl
    exact hproper

/-- **Another extension leads to another file**, unless the name has that extension already. -/
theorem IsTree.location_eq_iff (ht : t.IsTree) {working : Location} {path ext : String}
    (hslash : '/' ∉ ext.toList) (hdot : '.' ∉ ext.toList) {location' : Location}
    (h : t.resolve working path (Path.names path) = .ok location)
    (hfile : t.HasFile location content)
    (h' : t.target working (Path.withExtension path ext) = .ok location') :
    location' = location ↔ Path.HasExtension path ext := by
  obtain ⟨folder, name, rfl, hfolder, hname⟩ := Path.exists_folder path
  obtain ⟨before, hnames⟩ := Path.exists_names_append hfolder
  rw [hnames name hname] at h
  obtain ⟨there, hthere, hdir, rfl⟩ := exists_follow_of_resolve h
  have hproper : Path.IsProper name := by
    by_contra hno
    cases hfile.symm.trans (ht.entry?_onward hdir hname hno)
  have hrenamed := Path.slash_not_mem_renamed hslash hname
  have hresolve := resolve_of_target h'
  rw [Path.withExtension_append hfolder hproper, hnames _ hrenamed] at hresolve
  obtain ⟨there', hthere', -, rfl⟩ := exists_follow_of_resolve hresolve
  rw [Path.isAbsolute_append hrenamed] at hthere'
  rw [Path.isAbsolute_append hname] at hthere
  obtain rfl := Except.ok.inj (hthere'.symm.trans hthere)
  rw [onward_eq_iff hproper (Path.two_le_length_renamed hproper.ne_nil),
    Path.renamed_eq_self_iff hdot hproper, Path.hasExtension_iff hfolder hname]

theorem read_eq_ok {working : Location} {path : String}
    (h : t.resolve working path (Path.names path) = .ok location)
    (hfile : t.HasFile location content) : t.read working path = .ok content := by
  rw [HasFile] at hfile
  simp [read, h, hfile, bind, Except.bind, pure, Except.pure]

end FileTree

/-! ### The program file of a compilation -/

/-- Texts are read as they were written. -/
theorem fromUTF8?_toUTF8 (s : String) : String.fromUTF8? s.toUTF8 = some s := by
  have hvalid : s.toUTF8.IsValidUTF8 := s.isValidUTF8
  rw [String.fromUTF8?, dif_pos hvalid]
  rfl

variable {files : FileTree} {working location : Location} {content : ByteArray} {r : Request}

/-- Only an interpretation needs fuel. -/
theorem Plan.exists_run? {plan : Plan} (fuel : Nat)
    (h : ∀ {size : Nat} (i : Interpretation size), plan.task ≠ .interpret i) :
    ∃ o, plan.run? fuel files working = some o := by
  unfold run?
  split
  next => exact ⟨_, rfl⟩
  next => exact ⟨_, rfl⟩
  next =>
    split
    · exact ⟨_, rfl⟩
    · split <;> exact ⟨_, rfl⟩
  next i htask => exact absurd htask (h i)

namespace Request

/-- The task of a request to compile is no interpretation. -/
theorem task_ne_interpret_of_compile {p : Program} {setup : Setup} (hmode : r.mode = .compile)
    {size : Nat} (i : Interpretation size) : (r.task p setup).2 ≠ .interpret i := by
  rcases hm : Machine.prepare p setup with e | m
  · simp [task_of_prepare_error hm]
  · rcases hlines : Arm.generate p m.layout ⟨r.entry, r.comments⟩ setup.inputs with e | lines
    · simp [task_of_generate_error hm hmode hlines]
    · rw [task_of_generate_ok hm hmode hlines]
      cases r.destination <;> simp

theorem plan_ne_interpret_of_compile {content : Except String ByteArray}
    (hmode : r.mode = .compile) {size : Nat} (i : Interpretation size) :
    (r.plan content).task ≠ .interpret i := by
  rcases hjudge : r.judge content with message | ⟨p, setup⟩
  · simp [plan_of_judge_error hjudge]
  · rw [plan_of_judge_ok hjudge]
    exact task_ne_interpret_of_compile hmode i

/-- **A compilation that succeeds without a chosen output keeps the program just if the assembly
goes to another place.** Assembly is no program, so a program in whose place it goes is lost. -/
theorem exists_target_of_run? {fuel : Nat} {o : Outcome} (hmode : r.mode = .compile)
    (houtput : r.output = none) (hfile : files.HasFile location content)
    (h : (r.plan (.ok content)).run? fuel files working = some o) (hok : o.ending = .success) :
    ∃ location', files.target working (Path.withExtension r.path "s") = .ok location' ∧
      (o.files.HasFile location content ↔ location' ≠ location) := by
  obtain ⟨bytes, text, p, setup, m, lines, hcontent, htext, -, -, hp, -, hlines, hdelivers⟩ :=
    exists_delivers_of_run? hmode h hok
  cases hcontent
  have hpath : r.output.getD (Path.withExtension r.path "s") = Path.withExtension r.path "s" := by
    rw [houtput, Option.getD_none]
  cases hdelivers with
  | shown hdash => cases houtput.symm.trans hdash
  | @file location' files' _ htarget hchanged =>
    rw [hpath] at htarget
    refine ⟨location', htarget, ?_⟩
    by_cases hsame : location' = location
    · subst hsame
      refine iff_of_false (fun hkept ↦ ?_) (not_not.2 rfl)
      have hassembly := Entry.file.inj (Option.some.inj (hchanged.entry?_eq.symm.trans hkept))
      rw [← hassembly, fromUTF8?_toUTF8] at htext
      rw [← Option.some.inj htext] at hp
      cases hp.symm.trans (Arm.ofText_text_of_generate hp hlines)
    · exact iff_of_true ((hchanged.entry?_of_ne location (Ne.symm hsame)).trans hfile) hsame
  | @device location' d more _ htarget hdevice hmore =>
    rw [hpath] at htarget
    refine ⟨location', htarget, iff_of_true hfile ?_⟩
    rintro rfl
    cases hfile.symm.trans hdevice

end Request

/-- **What becomes of the program file of a compilation without a chosen output.** The program is a
file of a tree. The assembly goes to another place, unless the path has the extension of assembly
already, when it goes to the place of the program. The invocation ends, and the program is as it was
unless it succeeds and the path has that extension. -/
theorem exists_run?_keeps_iff {args : List String} (hargs : Request.ofArguments args = .ok r)
    (hmode : r.mode = .compile) (houtput : r.output = none) (htree : files.IsTree)
    (hlocation : files.resolve working r.path (Path.names r.path) = .ok location)
    (hfile : files.HasFile location content) (fuel : Nat) :
    (∀ location', files.target working (Path.withExtension r.path "s") = .ok location' →
        (location' = location ↔ Path.HasExtension r.path "s")) ∧
      ∃ o, run? fuel files working args = some o ∧
        (o.files.HasFile location content ↔
          o.ending.status ≠ 0 ∨ ¬Path.HasExtension r.path "s") := by
  have hwhere : ∀ location', files.target working (Path.withExtension r.path "s") = .ok location' →
      (location' = location ↔ Path.HasExtension r.path "s") := fun location' htarget ↦
    htree.location_eq_iff (by decide) (by decide) hlocation hfile htarget
  have hplan : run? fuel files working args = (r.plan (.ok content)).run? fuel files working := by
    rw [run?, hargs]
    dsimp only
    rw [FileTree.read_eq_ok hlocation hfile]
    rfl
  obtain ⟨o, ho⟩ := Plan.exists_run? fuel (Request.plan_ne_interpret_of_compile hmode)
  refine ⟨hwhere, o, hplan.trans ho, ?_⟩
  by_cases hok : o.ending.status = 0
  · obtain ⟨location', htarget, hkept⟩ := Request.exists_target_of_run? hmode houtput hfile ho
      (Ending.status_eq_zero_iff.1 hok)
    rw [hkept, Ne, hwhere location' htarget]
    exact (or_iff_right (not_not.2 hok)).symm
  · have hfiles : o.files = files := (Plan.files_eq_or_write ho).resolve_right fun hwrite ↦
      hok (Ending.status_eq_zero_iff.2 hwrite.2)
    rw [hfiles]
    exact iff_of_true hfile (.inl hok)

/-- Two programs that are compiled to the same path. One of them is that path. -/
theorem exists_run?_keeps_iff_same :
    ∃ (files : FileTree) (lost kept : Outcome),
      files = ⟨[(["prog.s"], .file "exit".toUTF8), (["prog.hra"], .file "exit".toUTF8)]⟩ ∧
      run? 0 files [] ["-c", "prog.s"] = some lost ∧ lost.ending.status = 0 ∧
      ¬lost.files.HasFile ["prog.s"] "exit".toUTF8 ∧
      run? 0 files [] ["-c", "prog.hra"] = some kept ∧ kept.ending.status = 0 ∧
      kept.files.HasFile ["prog.hra"] "exit".toUTF8 := by
  let files : FileTree :=
    ⟨[(["prog.s"], .file "exit".toUTF8), (["prog.hra"], .file "exit".toUTF8)]⟩
  have htree : files.IsTree := by
    refine FileTree.isTree_of_forall_entries ?_
    simp [files, FileTree.entry?]
  have hrun : ∀ path, path = "prog.s" ∨ path = "prog.hra" → ∃ o,
      run? 0 files [] ["-c", path] = some o ∧ o.ending.status = 0 ∧
        (o.files.HasFile [path] "exit".toUTF8 ↔ ¬Path.HasExtension path "s") := by
    intro path hpath
    have hargs : Request.ofArguments ["-c", path] =
        .ok ⟨path, .compile, "32", [], .none, none, "_start", false, false⟩ := by
      rcases hpath with rfl | rfl <;> rfl
    have hlocation : files.resolve [] path (Path.names path) = .ok [path] := by
      rcases hpath with rfl | rfl <;> rfl
    have hfile : files.HasFile [path] "exit".toUTF8 := by
      rcases hpath with rfl | rfl <;> rfl
    have hstatus : (run? 0 files [] ["-c", path]).map (·.ending.status) = some 0 := by
      rcases hpath with rfl | rfl <;> decide +kernel
    obtain ⟨-, o, ho, hkept⟩ := exists_run?_keeps_iff hargs rfl rfl htree hlocation hfile 0
    rw [ho, Option.map_some, Option.some_inj] at hstatus
    rw [hstatus, or_iff_right (not_not.2 rfl)] at hkept
    exact ⟨o, ho, hstatus, hkept⟩
  obtain ⟨lost, hlost, hlostok, hlostiff⟩ := hrun "prog.s" (.inl rfl)
  obtain ⟨kept, hkept, hkeptok, hkeptiff⟩ := hrun "prog.hra" (.inr rfl)
  refine ⟨files, lost, kept, rfl, hlost, hlostok, ?_, hkept, hkeptok, hkeptiff.2 ?_⟩
  · exact mt hlostiff.1 (not_not.2 ⟨"prog", by decide, by decide, by decide⟩)
  · rintro ⟨stem, hname, -⟩
    have hlast : (Path.names "prog.hra").getLast? = some "prog.hra" := by decide
    rw [hlast, Option.some_inj, ← String.toList_inj] at hname
    have hend := congrArg List.getLast? hname
    simp at hend

end CommandLine

end CursorMachine
