import CursorMachine.Proofs.Lowering.Checks
import CursorMachine.Proofs.Lowering.Labels
import CursorMachine.Proofs.Lowering.Listing
import Mathlib.Data.List.Perm.Basic

/-!
# How lowered code is arranged

The entry cuts lowered code in two (`lower_eq_around`): above it stands the code of the statements
before the first one to run, below it the rest of the setup, the code of the other statements, and
the routines. The labels of both parts are known exactly, and two facts are read off from them: in
which order the lines are labelled (`filter_names_lower`), and which labels there are.

The labels that a program has of its own are `ownLabels`: those of its lines, of the line after the
last, of its functions, and the routines. With the entry they are all labels of the code, each as
often as it is set (`perm_labels_lower`). Their names differ from each other (`nodup_ownNames`). The
name of the entry is free, and an identifier like theirs, so it may be one of them; when it is not,
and only then, no name is set twice (`exists_nodup_names_iff`).
-/

namespace CursorMachine.Arm

/-! ### Above and below the entry -/

section Parts

variable (p : Program) (layout : Layout) (options : Options) (inputs : List Cell)

/-- The code of statements, with nothing in between. -/
def codeOf (ss : List Statement) : List Line :=
  ss.flatMap (lowerStatement layout.size options.verbose)

/-- The code of the line after the last one. -/
def trap (line : Nat) : List Line :=
  [.label (.node line), jump (.routine .instructionFault)]

/-- The code above the entry. -/
def codeAbove : List Line :=
  header p.length layout.size ++ codeOf layout options (p.statements.take layout.start) ++
    if 0 < layout.start then [jump (.node (layout.start + 1))] else []

/-- The code below the label of the entry. -/
def codeBelow : List Line :=
  (setup options layout.size inputs).drop 2 ++
    codeOf layout options (p.statements.drop layout.start) ++ trap (p.length + 1) ++
      routines options

variable {p layout options inputs}

theorem codeFrom_of_start_lt {place : Nat} {ss : List Statement} (h : layout.start < place) :
    codeFrom layout options inputs place ss =
      codeOf layout options ss ++ trap (place + ss.length + 1) := by
  induction ss generalizing place with
  | nil =>
    rw [codeFrom, arrival, if_neg (Nat.ne_of_gt h)]
    rfl
  | cons s ss ih =>
    have hplace : place + 1 + ss.length = place + (s :: ss).length := by
      rw [List.length_cons, Nat.add_right_comm, Nat.add_assoc]
    rw [codeFrom, arrival, if_neg (Nat.ne_of_gt h), ih (Nat.lt_succ_of_lt h), hplace, codeOf,
      codeOf, List.flatMap_cons, List.nil_append, List.append_assoc]

/-- The statements that come before the start are lowered one after the other, and so are the ones
that come after it. -/
theorem codeFrom_append {place : Nat} {before after : List Statement}
    (h : place + before.length = layout.start) :
    codeFrom layout options inputs place (before ++ after) =
      codeOf layout options before ++ arrival layout options inputs layout.start ++
        codeOf layout options after ++ trap (layout.start + after.length + 1) := by
  induction before generalizing place with
  | nil =>
    obtain rfl : place = layout.start := h
    cases after with
    | nil => simp [codeFrom, codeOf, trap]
    | cons s ss =>
      have hlength : layout.start + 1 + ss.length = layout.start + (s :: ss).length := by
        rw [List.length_cons, Nat.add_right_comm, Nat.add_assoc]
      rw [List.nil_append, codeFrom, codeFrom_of_start_lt (Nat.lt_succ_self _), hlength]
      simp only [codeOf, List.flatMap_nil, List.flatMap_cons, List.nil_append, List.append_assoc]
  | cons s ss ih =>
    have hplace : place ≠ layout.start := by
      rw [List.length_cons] at h
      omega
    have hrest : place + 1 + ss.length = layout.start := by
      rw [List.length_cons] at h
      omega
    rw [List.cons_append, codeFrom, arrival, if_neg hplace, ih hrest]
    simp only [codeOf, List.flatMap_cons, List.nil_append, List.append_assoc]

/-- **The entry stands between what is above it and what is below it**, with its directive right
before it. -/
theorem lower_eq_around (h : layout.start ≤ p.length) :
    lower p layout options inputs =
      codeAbove p layout options ++
        .directive (.visible (.entry options.entry)) :: .label (.entry options.entry) ::
          codeBelow p layout options inputs := by
  have htake : 0 + (p.statements.take layout.start).length = layout.start := by
    rw [Nat.zero_add, List.length_take]
    exact Nat.min_eq_left h
  have hdrop : layout.start + (p.statements.drop layout.start).length = p.length := by
    rw [List.length_drop]
    exact Nat.add_sub_cancel' h
  have hsetup : setup options layout.size inputs =
      .directive (.visible (.entry options.entry)) :: .label (.entry options.entry) ::
        (setup options layout.size inputs).drop 2 := rfl
  have hcode : codeFrom layout options inputs 0
      (p.statements.take layout.start ++ p.statements.drop layout.start) = _ :=
    codeFrom_append htake
  rw [List.take_append_drop, hdrop, arrival, if_pos rfl, hsetup] at hcode
  rw [lower_eq, hcode, codeAbove, codeBelow]
  simp only [List.append_assoc, List.cons_append]

end Parts

/-! ### The labels of the two parts -/

/-- The label is that of a line. -/
def Label.isNode : Label → Bool
  | .node _ => true
  | _ => false

/-- The labels of the lines of a program, and of the line after the last. -/
def nodeLabels (p : Program) : List Label :=
  (List.range (p.length + 1)).map fun place ↦ .node (place + 1)

/-- All routines. -/
def Routine.all : List Routine :=
  [.clear, .print, .printDigit, .memoryFault, .instructionFault, .exit, .terminate]

theorem Routine.mem_all (r : Routine) : r ∈ all := by
  cases r <;> decide

/-- The labels of a program but for the entry, whose name is not up to the program. -/
def ownLabels (p : Program) : List Label :=
  nodeLabels p ++ p.table.map (fun f ↦ .function f.1) ++ Routine.all.map .routine

section Labels

variable {p : Program} {layout : Layout} {options : Options} {inputs : List Cell}
  {ss : List Statement}

theorem labels_codeOf :
    labels (codeOf layout options ss) =
      ss.flatMap fun s ↦
        .node s.line :: (s.opening?.map fun f ↦ Label.function f.1).toList := by
  rw [labels, codeOf, List.filterMap_flatMap]
  exact List.flatMap_congr fun s _ ↦ labels_lowerStatement layout.size options.verbose s

/-- The labels of statements are those of their lines and those of the functions they open. -/
theorem perm_labels_codeOf :
    (labels (codeOf layout options ss)).Perm
      (ss.map (fun s ↦ .node s.line) ++
        (ss.filterMap Statement.opening?).map fun f ↦ .function f.1) := by
  have hfunctions : ((ss.filterMap Statement.opening?).map fun f ↦ Label.function f.1) =
      ss.flatMap fun s ↦ (s.opening?.map fun f ↦ Label.function f.1).toList := by
    rw [List.map_filterMap, List.filterMap_eq_flatMap_toList]
  rw [labels_codeOf, hfunctions]
  exact (List.map_append_flatMap_perm ss _ _).symm

/-- The lines are labelled in order. -/
theorem filter_labels_codeOf :
    (labels (codeOf layout options ss)).filter Label.isNode = ss.map fun s ↦ .node s.line := by
  have hfunction (f : Option (String × Nat)) :
      (f.map fun f ↦ Label.function f.1).toList.filter Label.isNode = [] := by
    cases f <;> rfl
  rw [labels_codeOf, List.filter_flatMap, List.map_eq_flatMap]
  refine List.flatMap_congr fun s _ ↦ ?_
  rw [List.filter_cons_of_pos rfl, hfunction]

/-- The lines of the statements and the one after them are the lines of the program. -/
theorem nodeLabels_eq (hp : p.WellFormed) :
    nodeLabels p = p.statements.map (fun s ↦ .node s.line) ++ [.node (p.length + 1)] := by
  have hlines : p.statements.map (fun s ↦ Label.node s.line) =
      (List.range p.length).map fun place ↦ .node (place + 1) := by
    refine List.ext_getElem (by simp [Program.length]) fun i hi hi' ↦ ?_
    rw [List.length_map] at hi
    have hs : p.statement? i = some p.statements[i] := List.getElem?_eq_getElem hi
    rw [List.getElem_map, List.getElem_map, List.getElem_range, hp.line_eq hs]
  rw [nodeLabels, List.range_succ, List.map_append, hlines]
  rfl

theorem labels_codeAbove :
    labels (codeAbove p layout options) =
      labels (codeOf layout options (p.statements.take layout.start)) := by
  rw [codeAbove, labels_append, labels_append, labels_header, List.nil_append]
  split
  · rw [jump, labels_operation_cons, labels_nil, List.append_nil]
  · rw [labels_nil, List.append_nil]

theorem labels_codeBelow :
    labels (codeBelow p layout options inputs) =
      .routine .clear :: labels (codeOf layout options (p.statements.drop layout.start)) ++
        .node (p.length + 1) ::
          [.routine .print, .routine .printDigit, .routine .memoryFault,
            .routine .instructionFault, .routine .exit, .routine .terminate] := by
  have hsetup : labels ((setup options layout.size inputs).drop 2) = [.routine .clear] :=
    List.cons_inj_right _ |>.1 (labels_setup layout.size options inputs)
  rw [codeBelow, labels_append, labels_append, labels_append, hsetup, routines, labels_append,
    labels_printRoutine, labels_exitRoutines]
  simp [trap, jump]

/-- **Above the entry stand the lines before the first one to run**, in order. -/
theorem filter_labels_codeAbove (hp : p.WellFormed) (h : layout.start ≤ p.length) :
    (labels (codeAbove p layout options)).filter Label.isNode =
      (nodeLabels p).take layout.start := by
  rw [labels_codeAbove, filter_labels_codeOf, nodeLabels_eq hp, List.take_append_of_le_length,
    List.map_take]
  rwa [List.length_map]

/-- **Below the entry stand all other lines**, in order. -/
theorem filter_labels_codeBelow (hp : p.WellFormed) (h : layout.start ≤ p.length) :
    (labels (codeBelow p layout options inputs)).filter Label.isNode =
      (nodeLabels p).drop layout.start := by
  rw [labels_codeBelow, List.filter_append, List.filter_cons_of_neg (by decide),
    filter_labels_codeOf, List.filter_cons_of_pos rfl, nodeLabels_eq hp,
    List.drop_append_of_le_length, List.map_drop]
  · rfl
  · rwa [List.length_map]

/-- Around the entry, every label of the program is set once. -/
theorem perm_labels_around (hp : p.WellFormed) :
    (labels (codeAbove p layout options) ++ labels (codeBelow p layout options inputs)).Perm
      (ownLabels p) := by
  have hcode : labels (codeOf layout options p.statements) =
      labels (codeOf layout options (p.statements.take layout.start)) ++
        labels (codeOf layout options (p.statements.drop layout.start)) := by
    rw [← labels_append, codeOf, codeOf, codeOf, ← List.flatMap_append, List.take_append_drop]
  rw [List.perm_iff_count]
  intro l
  have hcount : (labels (codeOf layout options p.statements)).count l = _ :=
    perm_labels_codeOf.count_eq l
  rw [hcode] at hcount
  rw [labels_codeAbove, labels_codeBelow, ownLabels, nodeLabels_eq hp, hp.table_eq, Routine.all]
  simp only [List.count_append, List.count_cons, List.count_nil, List.map_cons, List.map_nil]
    at hcount ⊢
  omega

/-- **The labels of lowered code** are the entry and those of the program, each as often as it is
set. -/
theorem perm_labels_lower (hp : p.WellFormed) (h : layout.start ≤ p.length) :
    (labels (lower p layout options inputs)).Perm (.entry options.entry :: ownLabels p) := by
  rw [lower_eq_around h, labels_append, labels_directive_cons, labels_label_cons]
  exact List.perm_middle.trans ((perm_labels_around hp).cons _)

theorem ne_entry_of_mem_ownLabels {l : Label} (h : l ∈ ownLabels p) (name : String) :
    l ≠ .entry name := by
  rintro rfl
  simp [ownLabels, nodeLabels] at h

/-- The names that a program uses for labels of its own. -/
def ownNames (p : Program) : List String :=
  (ownLabels p).map Label.text

/-- **The names of a program are told apart**: those of lines, of functions and of routines, and
every two of a kind. -/
theorem nodup_ownNames (hp : p.WellFormed) : (ownNames p).Nodup := by
  -- The labels of a program do not depend on how it is lowered, so any lowering shows them.
  have hnodup : (labels (lower p ⟨0, p.entry, []⟩ {} [])).Nodup := nodup_labels_lower hp
  rw [(perm_labels_lower hp hp.entry_le_length).nodup_iff, List.nodup_cons] at hnodup
  exact hnodup.2.map_on fun l hl l' hl' htext ↦
    Label.eq_of_text_eq (ne_entry_of_mem_ownLabels hl) (ne_entry_of_mem_ownLabels hl') htext

end Labels

/-! ### Names in the text -/

/-- The names that lines set, in order. -/
def names (code : List Line) : List String :=
  (labels code).map Label.text

section Names

variable {p : Program} {layout : Layout} {options : Options} {inputs : List Cell}

@[simp]
theorem Label.text_named (l : Label) : l.named.text = l.text :=
  rfl

theorem labels_map_named (code : List Line) :
    labels (code.map Line.named) = (labels code).map Label.named := by
  induction code with
  | nil => rfl
  | cons line code ih =>
    cases line with
    | directive d => cases d <;> exact ih
    | label l => exact congrArg (l.named :: ·) ih
    | _ => exact ih

/-- What is read back sets the same names. -/
@[simp]
theorem names_map_named (code : List Line) : names (code.map Line.named) = names code := by
  rw [names, labels_map_named, List.map_map]
  rfl

/-- The names of the lines of a program, and of the line after the last. -/
def nodeNames (p : Program) : List String :=
  (nodeLabels p).map Label.text

theorem mem_nodeLabels_iff {l : Label} : l ∈ nodeLabels p ↔ l ∈ ownLabels p ∧ l.isNode := by
  cases l <;> simp [ownLabels, nodeLabels, Label.isNode]

/-- The names of lines belong to lines. -/
theorem text_mem_nodeNames_iff {l : Label} (h : l ∈ ownLabels p) :
    l.text ∈ nodeNames p ↔ l.isNode := by
  rw [nodeNames, List.mem_map]
  constructor
  · rintro ⟨l', hl', htext⟩
    obtain ⟨hown, hnode⟩ := mem_nodeLabels_iff.1 hl'
    have heq := Label.eq_of_text_eq (ne_entry_of_mem_ownLabels hown) (ne_entry_of_mem_ownLabels h)
      htext
    rwa [← heq]
  · exact fun hnode ↦ ⟨l, mem_nodeLabels_iff.2 ⟨h, hnode⟩, rfl⟩

/-- Among labels of a program and an entry with a name of its own, the names of lines are found
where the lines are. -/
theorem filter_names {code : List Line} (hentry : options.entry ∉ ownNames p)
    (h : ∀ l ∈ labels code, l ∈ .entry options.entry :: ownLabels p) :
    (names code).filter (· ∈ nodeNames p) =
      ((labels code).filter Label.isNode).map Label.text := by
  rw [names, List.filter_map]
  refine congrArg (List.map Label.text) (List.filter_congr fun l hl ↦ ?_)
  rw [Function.comp_apply, Bool.eq_iff_iff, decide_eq_true_iff]
  rcases List.mem_cons.1 (h l hl) with rfl | hown
  · have hother : options.entry ∉ nodeNames p := fun hmem ↦ by
      obtain ⟨l', hl', htext⟩ := List.mem_map.1 hmem
      exact hentry (List.mem_map.2 ⟨l', (mem_nodeLabels_iff.1 hl').1, htext⟩)
    exact iff_of_false hother Bool.false_ne_true
  · exact text_mem_nodeNames_iff hown

/-- Around the entry, every name of the program is set once. -/
theorem perm_names_around (hp : p.WellFormed) :
    (names (codeAbove p layout options) ++ names (codeBelow p layout options inputs)).Perm
      (ownNames p) := by
  rw [names, names, ← List.map_append]
  exact (perm_labels_around hp).map Label.text

/-- **The names in lowered code** are that of the entry and those of the program. -/
theorem perm_names_lower (hp : p.WellFormed) (h : layout.start ≤ p.length) :
    (names (lower p layout options inputs)).Perm (options.entry :: ownNames p) :=
  (perm_labels_lower hp h).map Label.text

section Lines

variable (hp : p.WellFormed) (h : layout.start ≤ p.length) (hentry : options.entry ∉ ownNames p)

include hp h hentry

theorem filter_names_codeAbove :
    (names (codeAbove p layout options)).filter (· ∈ nodeNames p) =
      (nodeNames p).take layout.start := by
  have hperm : (labels (codeAbove p layout options) ++
      labels (codeBelow p layout options [])).Perm (ownLabels p) := perm_labels_around hp
  have hown : ∀ l ∈ labels (codeAbove p layout options), l ∈ ownLabels p := fun l hl ↦
    hperm.mem_iff.1 (List.mem_append_left _ hl)
  rw [filter_names hentry fun l hl ↦ List.mem_cons_of_mem _ (hown l hl),
    filter_labels_codeAbove hp h, List.map_take, nodeNames]

theorem filter_names_codeBelow :
    (names (codeBelow p layout options inputs)).filter (· ∈ nodeNames p) =
      (nodeNames p).drop layout.start := by
  have hown : ∀ l ∈ labels (codeBelow p layout options inputs), l ∈ ownLabels p := fun l hl ↦
    (perm_labels_around hp).mem_iff.1 (List.mem_append_right _ hl)
  rw [filter_names hentry fun l hl ↦ List.mem_cons_of_mem _ (hown l hl),
    filter_labels_codeBelow hp h, List.map_drop, nodeNames]

/-- **The lines are labelled in order**, each once. -/
theorem filter_names_lower :
    (names (lower p layout options inputs)).filter (· ∈ nodeNames p) = nodeNames p := by
  rw [filter_names hentry fun l hl ↦ (perm_labels_lower hp h).mem_iff.1 hl, lower_eq_around h,
    labels_append, labels_directive_cons, labels_label_cons, List.filter_append,
    List.filter_cons_of_neg Bool.false_ne_true, filter_labels_codeAbove hp h,
    filter_labels_codeBelow hp h, List.take_append_drop, nodeNames]

end Lines

end Names

/-- What lowering knows of a prepared machine. -/
theorem layout_eq_of_prepare {p : Program} {setup : Setup} {m : Machine setup.cells}
    (h : Machine.prepare p setup = .ok m) :
    m.layout = ⟨setup.cells, p.entry, p.table.map Prod.fst⟩ := by
  obtain ⟨-, -, -, -, hposition, hfunctions, -⟩ := Machine.prepare_eq_ok_iff.1 h
  rw [Machine.layout, hposition, hfunctions]

/-- **Labels are told apart unless the entry has the name of another one.** The text of every
lowered program reads back, and sets the name of the entry and the names of the program, which
differ from each other. Nothing keeps the entry from having one of those: then the text sets that
name twice. -/
theorem exists_nodup_names_iff {source : String} {p : Program} {setup : Setup}
    {m : Machine setup.cells} {options : Options} {inputs : List Cell} {lines : List Line}
    (hp : Program.ofText source = .ok p) (hm : Machine.prepare p setup = .ok m)
    (hlines : generate p m.layout options inputs = .ok lines) :
    ∃ code, readAll? (text lines) = some code ∧
      (names code).Perm (options.entry :: ownNames p) ∧ (ownNames p).Nodup ∧
      ((names code).Nodup ↔ options.entry ∉ ownNames p) := by
  have hwf := Program.wellFormed_of_ofText hp
  obtain ⟨haccepts, -, rfl⟩ := generate_eq_ok_iff.1 hlines
  have hstart : m.layout.start ≤ p.length := by
    rw [layout_eq_of_prepare hm]
    exact hwf.entry_le_length
  have hperm : (names (lower p m.layout options inputs)).Perm (options.entry :: ownNames p) :=
    perm_names_lower hwf hstart
  refine ⟨_, readAll?_text_lower hwf _ inputs haccepts.isIdentifier, ?_, nodup_ownNames hwf, ?_⟩
  · rwa [names_map_named]
  · rw [names_map_named, hperm.nodup_iff, List.nodup_cons]
    exact and_iff_left (nodup_ownNames hwf)

/-- A program whose entry has the name of its first line. -/
theorem exists_nodup_names_iff_node :
    ∃ (p : Program) (m : Machine 1) (lines : List Line),
      Program.ofText "exit" = .ok p ∧ Machine.prepare p { cells := 1 } = .ok m ∧
      generate p m.layout { entry := "node_1" } [] = .ok lines ∧
      ∃ code, readAll? (text lines) = some code ∧
        (names code).Perm ("node_1" :: ownNames p) ∧ (ownNames p).Nodup ∧
        ((names code).Nodup ↔ "node_1" ∉ ownNames p) ∧ ¬(names code).Nodup := by
  let p : Program := ⟨[⟨1, [], .exit⟩], []⟩
  let m : Machine 1 := ⟨#v[0], 0, 0, [], #[]⟩
  have hp : Program.ofText "exit" = .ok p := by rfl
  have hm : Machine.prepare p { cells := 1 } = .ok m := by rfl
  have hlines : generate p m.layout { entry := "node_1" } [] =
      .ok (lower p m.layout { entry := "node_1" } []) := by rfl
  obtain ⟨code, hcode, hperm, hnodup, hiff⟩ := exists_nodup_names_iff hp hm hlines
  have hmem : "node_1" ∈ ownNames p := by decide
  exact ⟨p, m, _, hp, hm, hlines, code, hcode, hperm, hnodup, hiff,
    fun h ↦ hiff.1 h hmem⟩

end CursorMachine.Arm
