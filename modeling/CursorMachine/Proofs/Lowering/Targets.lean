import CursorMachine.Proofs.Lowering.Arrangement

/-!
# No branch leads nowhere

Every branch of lowered code leads to a label of the program itself (`leadsInto_lower`): to a line,
to the line after the last, to a function, or to a routine. For the statements this is what their
checks are for (`leadsInto_lowerStatement`); everything around them branches to routines, and once
to the line at which the program starts.

The lines are labelled in order, and the entry stands among them where the program starts
(`exists_targets_defined`).
-/

namespace CursorMachine.Arm

/-! ### Targets of branches -/

/-- The label that a line branches to. -/
def Line.target? : Line → Option Label
  | .operation (.branch _ l) | .operation (.call l) => some l
  | _ => none

/-- The labels that lines branch to, in order. -/
def targets (code : List Line) : List Label :=
  code.filterMap Line.target?

/-- Every branch leads to one of the labels. -/
def LeadsInto (known : List Label) (code : List Line) : Prop :=
  ∀ l ∈ targets code, l ∈ known

section Parts

variable {known : List Label} {code before after : List Line}
  (r scratch : Register) (n : UInt32) (size : Nat) (verbose : Bool)

@[simp]
theorem leadsInto_nil : LeadsInto known [] := by
  simp [LeadsInto, targets]

@[simp]
theorem leadsInto_append :
    LeadsInto known (before ++ after) ↔ LeadsInto known before ∧ LeadsInto known after := by
  simp only [LeadsInto, targets, List.filterMap_append, List.forall_mem_append]

@[simp]
theorem leadsInto_cons {line : Line} :
    LeadsInto known (line :: code) ↔
      (∀ l ∈ line.target?, l ∈ known) ∧ LeadsInto known code := by
  rw [LeadsInto, LeadsInto, targets, targets, List.filterMap_cons]
  cases line.target? <;> simp

@[simp]
theorem leadsInto_remark (text : String) : LeadsInto known (remark verbose text) := by
  cases verbose <;> simp [remark, Line.target?]

@[simp]
theorem leadsInto_loadConstant : LeadsInto known (loadConstant r n) := by
  unfold loadConstant
  split
  · simp [Line.target?]
  · split <;> simp [Line.target?]

@[simp]
theorem leadsInto_loadCell (address : Nat) : LeadsInto known (loadCell r scratch address) := by
  simp [loadCell, Line.target?]

@[simp]
theorem leadsInto_storeInput (v : Cell) (address : Nat) :
    LeadsInto known (storeInput v address) := by
  simp [storeInput, Line.target?]

@[simp]
theorem leadsInto_jump {l : Label} : LeadsInto known [jump l] ↔ l ∈ known := by
  simp [jump, Line.target?]

/-- A move of the cursor branches to one routine only. -/
theorem leadsInto_moveCursor (h : .routine .memoryFault ∈ known) (d : Direction) (amount : Nat) :
    LeadsInto known (moveCursor size d amount) := by
  by_cases hsize : size ≤ amount <;> cases d <;>
    simp [moveCursor, hsize, h, jump, Line.target?]

theorem leadsInto_header (length : Nat) : LeadsInto known (header length size) := by
  simp [header, Line.target?]

/-- The setup branches back to its loop only. -/
theorem leadsInto_setup (h : .routine .clear ∈ known) (options : Options) (inputs : List Cell) :
    LeadsInto known (setup options size inputs) := by
  have hinputs {f : Cell × Nat → List Line} (hf : ∀ v, LeadsInto known (f v)) :
      LeadsInto known (inputs.zipIdx.flatMap f) := by
    intro l hl
    obtain ⟨line, hline, htarget⟩ := List.mem_filterMap.1 hl
    obtain ⟨v, -, hv⟩ := List.mem_flatMap.1 hline
    exact hf v l (List.mem_filterMap.2 ⟨line, hv, htarget⟩)
  simp [setup, Line.target?, h, hinputs]

theorem leadsInto_printRoutine (h : .routine .printDigit ∈ known) :
    LeadsInto known (printRoutine verbose) := by
  simp [printRoutine, Line.target?, h]

theorem leadsInto_exitRoutines (h : .routine .terminate ∈ known) :
    LeadsInto known (exitRoutines verbose) := by
  simp [exitRoutines, jump, Line.target?, h]

end Parts

/-! ### Branches of a program -/

section Program

variable {p : Program} {layout : Layout} {options : Options} {inputs : List Cell}

theorem node_mem_ownLabels {line : Nat} (h : 1 ≤ line) (h' : line ≤ p.length + 1) :
    .node line ∈ ownLabels p := by
  have hnode : .node line ∈ nodeLabels p :=
    List.mem_map.2 ⟨line - 1, List.mem_range.2 (by omega), by rw [Nat.sub_add_cancel h]⟩
  exact List.mem_append_left _ (List.mem_append_left _ hnode)

theorem function_mem_ownLabels {name : String} (h : name ∈ p.table.map Prod.fst) :
    .function name ∈ ownLabels p := by
  obtain ⟨f, hf, rfl⟩ := List.mem_map.1 h
  exact List.mem_append_left _ (List.mem_append_right _ (List.mem_map.2 ⟨f, hf, rfl⟩))

theorem routine_mem_ownLabels (r : Routine) : .routine r ∈ ownLabels p :=
  List.mem_append_right _ (List.mem_map.2 ⟨r, r.mem_all, rfl⟩)

/-- A place to continue at has a label. -/
theorem node_mem_of_checkTarget {target : Int} {line : Nat} (htarget : target = line)
    (h : discard (checkTarget target p.length) = .ok ()) : .node line ∈ ownLabels p := by
  obtain ⟨line', hok⟩ := discard_eq_ok_iff.1 h
  obtain ⟨heq, hpos, hle⟩ := checkTarget_eq_ok_iff.1 hok
  exact node_mem_ownLabels (by omega) (by omega)

/-- A jump that passes its check leads where it says: neither does it reach `farthest`, nor does it
lead below zero. -/
theorem leadsInto_jumpBy {line n : Nat} {d : Direction} (hlength : (p.length : Int) + 1 < farthest)
    (h : discard (checkTarget (d.travel line n) p.length) = .ok ()) :
    LeadsInto (ownLabels p) (lowerInstruction layout.size line (.jumpBy d n)) := by
  obtain ⟨line', hok⟩ := discard_eq_ok_iff.1 h
  have hbounds := checkTarget_eq_ok_iff.1 hok
  cases d with
  | forward =>
    simp only [Direction.travel, saturate] at hbounds
    exact leadsInto_jump.2 (node_mem_ownLabels (by omega) (by omega))
  | backward =>
    simp only [Direction.travel] at hbounds
    exact leadsInto_jump.2 (node_mem_ownLabels (by omega) (by omega))

/-- **A statement that passes its check branches to labels of the program.** -/
theorem leadsInto_lowerStatement {s : Statement} (hlength : (p.length : Int) + 1 < farthest)
    (hcallable : layout.callable = p.table.map Prod.fst)
    (h : s.check layout p.length = .ok ()) :
    LeadsInto (ownLabels p) (lowerStatement layout.size options.verbose s) := by
  suffices LeadsInto (ownLabels p) (lowerInstruction layout.size s.line s.instruction) by
    simpa [lowerStatement, Line.target?] using this
  unfold Statement.check at h
  rcases hi : s.instruction with
    ⟨d, n⟩ | a | a | ⟨d, n⟩ | line | - | name | - | name | - | ⟨r, a, b⟩ | v | ⟨u, v⟩ <;>
    simp only [hi] at h
  case moveBy => exact leadsInto_moveCursor _ (routine_mem_ownLabels _) d n
  case jumpBy => exact leadsInto_jumpBy hlength h
  case jumpTo => exact leadsInto_jump.2 (node_mem_of_checkTarget rfl h)
  case call =>
    split at h
    · next hmem =>
      rw [hcallable, List.contains_iff_mem] at hmem
      exact leadsInto_jump.2 (function_mem_ownLabels hmem)
    · cases h
  case exit => exact leadsInto_jump.2 (routine_mem_ownLabels _)
  case print => simp [lowerInstruction, Line.target?, routine_mem_ownLabels]
  case compare =>
    obtain ⟨⟨⟩, -, h⟩ := bind_eq_ok_iff.1 h
    obtain ⟨⟨⟩, -, h⟩ := bind_eq_ok_iff.1 h
    obtain ⟨⟨⟩, hholds, hskips⟩ := bind_eq_ok_iff.1 h
    have hnext : .node (s.line + 1) ∈ ownLabels p := node_mem_of_checkTarget (by omega) hholds
    have hskip : .node (s.line + 2) ∈ ownLabels p := node_mem_of_checkTarget (by omega) hskips
    simp [lowerInstruction, jump, Line.target?, hnext, hskip]
  case update => cases u <;> simp [lowerInstruction, combine, Line.target?]
  all_goals simp [lowerInstruction, Line.target?]

section Accepted

variable (hstart : layout.start ≤ p.length) (hlength : (p.length : Int) + 1 < farthest)
  (hcallable : layout.callable = p.table.map Prod.fst)
  (hchecks : ∀ s ∈ p.statements, s.check layout p.length = .ok ())

include hlength hcallable hchecks

theorem leadsInto_codeOf {ss : List Statement} (h : ∀ s ∈ ss, s ∈ p.statements) :
    LeadsInto (ownLabels p) (codeOf layout options ss) := by
  induction ss with
  | nil => exact leadsInto_nil
  | cons s ss ih =>
    obtain ⟨hs, hss⟩ := List.forall_mem_cons.1 h
    exact leadsInto_append.2 ⟨leadsInto_lowerStatement hlength hcallable (hchecks s hs), ih hss⟩

include hstart in
/-- Above the entry, the only branch that is not of a statement leads around the setup. -/
theorem leadsInto_codeAbove : LeadsInto (ownLabels p) (codeAbove p layout options) := by
  have haround : .node (layout.start + 1) ∈ ownLabels p :=
    node_mem_ownLabels (by omega) (by omega)
  rw [codeAbove, leadsInto_append, leadsInto_append]
  refine ⟨⟨leadsInto_header _ _, ?_⟩, ?_⟩
  · exact leadsInto_codeOf hlength hcallable hchecks fun s hs ↦ List.mem_of_mem_take hs
  · split
    · exact leadsInto_jump.2 haround
    · exact leadsInto_nil

/-- Below the entry, all branches that are not of a statement lead to routines. -/
theorem leadsInto_codeBelow : LeadsInto (ownLabels p) (codeBelow p layout options inputs) := by
  have hsetup : LeadsInto (ownLabels p) (setup options layout.size inputs) :=
    leadsInto_setup _ (routine_mem_ownLabels _) options inputs
  rw [← List.take_append_drop 2 (setup options layout.size inputs), leadsInto_append] at hsetup
  have htrap : LeadsInto (ownLabels p) (trap (p.length + 1)) := by
    simp [trap, jump, Line.target?, routine_mem_ownLabels]
  have hstatements : LeadsInto (ownLabels p)
      (codeOf layout options (p.statements.drop layout.start)) :=
    leadsInto_codeOf hlength hcallable hchecks fun s hs ↦ List.mem_of_mem_drop hs
  have hroutines : LeadsInto (ownLabels p) (routines options) := by
    rw [routines, leadsInto_append]
    exact ⟨leadsInto_printRoutine _ (routine_mem_ownLabels _),
      leadsInto_exitRoutines _ (routine_mem_ownLabels _)⟩
  simp only [codeBelow, leadsInto_append]
  exact ⟨⟨⟨hsetup.2, hstatements⟩, htrap⟩, hroutines⟩

include hstart in
/-- **Every branch of lowered code leads to a label of the program.** -/
theorem leadsInto_lower : LeadsInto (ownLabels p) (lower p layout options inputs) := by
  have habove : LeadsInto (ownLabels p) (codeAbove p layout options) :=
    leadsInto_codeAbove hstart hlength hcallable hchecks
  have hbelow : LeadsInto (ownLabels p) (codeBelow p layout options inputs) :=
    leadsInto_codeBelow hlength hcallable hchecks
  rw [lower_eq_around hstart]
  simp [habove, hbelow, Line.target?]

end Accepted

theorem targets_map_named (code : List Line) :
    targets (code.map Line.named) = (targets code).map Label.named := by
  rw [targets, targets, List.filterMap_map, List.map_filterMap]
  refine List.filterMap_congr fun line _ ↦ ?_
  cases line with
  | operation o => cases o <;> rfl
  | directive d => cases d <;> rfl
  | _ => rfl

end Program

/-- An entry stands among the lines of a program where the program starts: `above` is the code
before its directive, `below` the code after its label. -/
structure EntryBetween (p : Program) (entry : String) (above below : List Line) : Prop where
  notMem_above : entry ∉ names above
  notMem_below : entry ∉ names below
  filter_above : (names above).filter (· ∈ nodeNames p) = (nodeNames p).take p.entry
  filter_below : (names below).filter (· ∈ nodeNames p) = (nodeNames p).drop p.entry
  /-- Falling off the line above does not set up again. -/
  branch : 0 < p.entry → ∃ before, above = before ++ [jump (.entry s!"node_{p.entry + 1}")]

/-- An entry with a name of its own stands where the program starts. -/
theorem entryBetween_named {p : Program} {layout : Layout} {options : Options} {inputs : List Cell}
    (hp : p.WellFormed) (hstart : layout.start = p.entry) (hown : options.entry ∉ ownNames p) :
    EntryBetween p options.entry ((codeAbove p layout options).map Line.named)
      ((codeBelow p layout options inputs).map Line.named) := by
  have hle : layout.start ≤ p.length := hstart.trans_le hp.entry_le_length
  have haround : (names (codeAbove p layout options) ++
      names (codeBelow p layout options inputs)).Perm (ownNames p) := perm_names_around hp
  constructor
  case notMem_above =>
    rw [names_map_named]
    exact fun h ↦ hown (haround.mem_iff.1 (List.mem_append_left _ h))
  case notMem_below =>
    rw [names_map_named]
    exact fun h ↦ hown (haround.mem_iff.1 (List.mem_append_right _ h))
  case filter_above =>
    rw [names_map_named, filter_names_codeAbove hp hle hown, hstart]
  case filter_below =>
    rw [names_map_named, filter_names_codeBelow hp hle hown, hstart]
  case branch =>
    intro hpos
    rw [codeAbove, if_pos (hstart ▸ hpos), hstart, List.map_append]
    exact ⟨_, rfl⟩

/-- **No branch leads nowhere, and the lines come in order.** The text of every lowered program
reads back. Whatever its branches and calls name is set by a line of it. When the entry has a name
of its own, the lines are labelled in order, each once, and the entry is set once, right after its
directive, where the program starts: the lines before the first one to run stand above, the others
below, and right above the directive stands a branch to that first line, if there is anything to
branch from. The text has fewer than `2 ^ 63` characters, so no jump is cut off at `farthest`. -/
theorem exists_targets_named {source : String} (hsource : source.length < 2 ^ 63) {p : Program}
    {setup : Setup} {m : Machine setup.cells} {options : Options} {inputs : List Cell}
    {lines : List Line} (hp : Program.ofText source = .ok p)
    (hm : Machine.prepare p setup = .ok m)
    (hlines : generate p m.layout options inputs = .ok lines) :
    ∃ code, readAll? (text lines) = some code ∧ (∀ l ∈ targets code, l.text ∈ names code) ∧
      (options.entry ∉ ownNames p →
        (names code).filter (· ∈ nodeNames p) = nodeNames p ∧
        ∃ above below,
          code = above ++ .directive (.visible (.entry options.entry)) ::
            .label (.entry options.entry) :: below ∧
          EntryBetween p options.entry above below) := by
  have hwf := Program.wellFormed_of_ofText hp
  have hlength := Program.length_le_of_ofText hp hsource
  obtain ⟨haccepts, hchecks, rfl⟩ := generate_eq_ok_iff.1 hlines
  obtain ⟨hstart, hcallable⟩ : m.layout.start = p.entry ∧
      m.layout.callable = p.table.map Prod.fst := by
    rw [layout_eq_of_prepare hm]
    exact ⟨rfl, rfl⟩
  have hle : m.layout.start ≤ p.length := hstart.trans_le hwf.entry_le_length
  refine ⟨_, readAll?_text_lower hwf _ inputs haccepts.isIdentifier, ?_, fun hown ↦
    ⟨?_, (codeAbove p m.layout options).map Line.named,
      (codeBelow p m.layout options inputs).map Line.named, ?_, entryBetween_named hwf hstart hown⟩⟩
  · intro l hl
    rw [targets_map_named] at hl
    obtain ⟨l', hl', rfl⟩ := List.mem_map.1 hl
    have hknown : LeadsInto (ownLabels p) (lower p m.layout options inputs) :=
      leadsInto_lower hle (by unfold farthest; omega) hcallable hchecks
    rw [Label.text_named, names_map_named, (perm_names_lower hwf hle).mem_iff]
    exact List.mem_cons_of_mem _ (List.mem_map_of_mem (hknown l' hl'))
  · rw [names_map_named]
    exact filter_names_lower hwf hle hown
  · rw [lower_eq_around hle, List.map_append]
    rfl

/-- A program with lines above its entry, that calls and compares. -/
theorem exists_targets_named_call :
    ∃ (p : Program) (m : Machine 2) (lines code : List Line),
      Program.ofText
        "make function f\nprint\nclose\nless compare between 0 1\nrun function f\nexit" = .ok p ∧
      Machine.prepare p { cells := 2 } = .ok m ∧ generate p m.layout {} [] = .ok lines ∧
      p.entry = 3 ∧ readAll? (text lines) = some code ∧
      (∀ l ∈ targets code, l.text ∈ names code) ∧
      (names code).filter (· ∈ nodeNames p) = nodeNames p ∧
      ∃ above below,
        code = above ++ .directive (.visible (.entry "_start")) ::
          .label (.entry "_start") :: below ∧
        EntryBetween p "_start" above below := by
  let p : Program :=
    ⟨[⟨1, ["f"], .function "f"⟩, ⟨2, [], .print⟩, ⟨3, [], .close⟩,
      ⟨4, ["0", "1"], .compare .less 0 1⟩, ⟨5, ["f"], .call "f"⟩, ⟨6, [], .exit⟩], [⟨"f", 1, 3⟩]⟩
  let m : Machine 2 := ⟨#v[0, 0], 0, 3, [("f", 1)], #[]⟩
  have hp : Program.ofText
      "make function f\nprint\nclose\nless compare between 0 1\nrun function f\nexit" = .ok p := by
    rfl
  have hm : Machine.prepare p { cells := 2 } = .ok m := by rfl
  have hlines : generate p m.layout {} [] = .ok (lower p m.layout {} []) := by rfl
  have hown : ("_start" : String) ∉ ownNames p := by decide +kernel
  obtain ⟨code, hcode, htargets, harranged⟩ :=
    exists_targets_named (by decide) hp hm hlines
  obtain ⟨hnodes, habove⟩ := harranged hown
  exact ⟨p, m, _, code, hp, hm, hlines, rfl, hcode, htargets, hnodes, habove⟩

end CursorMachine.Arm
