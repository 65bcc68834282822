import CursorMachine.Arm.Lowering
import CursorMachine.Proofs.Lowering.Execution
import CursorMachine.Proofs.Reading.Regions
import Mathlib.Data.List.Nodup

/-!
# Where branches lead

A branch finds the first label with the right text, so the place it leads to is known once no other
label of the code has that text: `Unambiguous`, and then `seek_label`.

Lowered code is unambiguous when the entry has a name of its own (`unambiguous_lower`). The proof
first tells the labels themselves apart, by one induction along the statements, and then their
texts: every kind of label but the entry has its own first letter.

For the induction, `lower` is written as a recursion along the statements (`codeFrom`), which is
also the form in which later proofs walk through the code.
-/

namespace CursorMachine.Arm

/-! ### Labels of lines -/

/-- The label that a line sets. -/
def Line.label? : Line → Option Label
  | .label l => some l
  | _ => none

/-- The labels that lines set, in order. -/
def labels (code : List Line) : List Label :=
  code.filterMap Line.label?

section Labels

variable {code before after : List Line} {l : Label}

@[simp]
theorem labels_nil : labels [] = [] :=
  rfl

@[simp]
theorem labels_append : labels (before ++ after) = labels before ++ labels after :=
  List.filterMap_append

@[simp]
theorem labels_label_cons : labels (.label l :: code) = l :: labels code :=
  rfl

@[simp]
theorem labels_operation_cons (o : Operation) : labels (.operation o :: code) = labels code :=
  rfl

@[simp]
theorem labels_directive_cons (d : Directive) : labels (.directive d :: code) = labels code :=
  rfl

@[simp]
theorem labels_remark (verbose : Bool) (text : String) : labels (remark verbose text) = [] := by
  cases verbose <;> rfl

/-- No two labels have the same text. -/
def Unambiguous (code : List Line) : Prop :=
  ((labels code).map Label.text).Nodup

theorem seek_of_forall_ne {name : String} (h : ∀ l ∈ labels before, l.text ≠ name) :
    seek name (before ++ after) = seek name after := by
  induction before with
  | nil => rfl
  | cons line before ih =>
    have hbefore : seek name (before ++ after) = seek name after := by
      refine ih fun l hl ↦ h l ?_
      rw [labels, List.mem_filterMap] at hl ⊢
      obtain ⟨x, hx, hxl⟩ := hl
      exact ⟨x, List.mem_cons_of_mem _ hx, hxl⟩
    rw [List.cons_append]
    cases line with
    | label l =>
      rw [seek, if_neg (h l List.mem_cons_self)]
      exact hbefore
    | _ => exact hbefore

/-- **A label of unambiguous code is found where it stands.** -/
theorem seek_label (h : Unambiguous (before ++ .label l :: after)) :
    seek l.text (before ++ .label l :: after) = some (.label l :: after) := by
  rw [Unambiguous, labels_append, labels_label_cons, List.map_append, List.map_cons,
    List.nodup_append] at h
  rw [seek_of_forall_ne, seek, if_pos rfl]
  intro l' hl'
  exact h.2.2 l'.text (List.mem_map_of_mem hl') l.text List.mem_cons_self

end Labels

/-! ### Texts of labels -/

/-- Numbers are told apart by their decimals. -/
theorem eq_of_toString_eq {m n : Nat} (h : toString m = toString n) : m = n := by
  have hdigits : Nat.toDigits 10 m = Nat.toDigits 10 n := by
    rw [← Nat.toList_repr, ← Nat.toList_repr, ← Nat.toString_eq_repr, ← Nat.toString_eq_repr, h]
  rw [← Nat.ofDigitChars_ten_toDigits (n := m), hdigits, Nat.ofDigitChars_ten_toDigits]

theorem Routine.text_injective : Function.Injective Routine.text := by
  intro r s h
  cases r <;> cases s <;> first | rfl | exact absurd h (by decide)

/-- The letter that the text of a label starts with; `none` for the entry, whose name is free. -/
def Label.letter? : Label → Option Char
  | .entry _ => none
  | .node _ => some 'n'
  | .function _ => some 'f'
  | .routine _ => some 'h'

theorem Label.head?_text {l : Label} (h : ∀ name, l ≠ .entry name) :
    l.text.toList.head? = l.letter? := by
  cases l with
  | entry name => exact absurd rfl (h name)
  | node line =>
    have htext : (Label.node line).text = "node_" ++ toString line := rfl
    rw [htext, String.toList_append]
    rfl
  | function name =>
    have htext : (Label.function name).text = "function_" ++ name := rfl
    rw [htext, String.toList_append]
    rfl
  | routine r => cases r <;> rfl

/-- Labels other than the entry have different texts. -/
theorem Label.eq_of_text_eq {l l' : Label} (hl : ∀ name, l ≠ .entry name)
    (hl' : ∀ name, l' ≠ .entry name) (h : l.text = l'.text) : l = l' := by
  have hletter : l.letter? = l'.letter? := by
    rw [← head?_text hl, ← head?_text hl', h]
  cases l with
  | entry name => exact absurd rfl (hl name)
  | node line =>
    cases l' with
    | node line' =>
      have htext : "node_" ++ toString line = "node_" ++ toString line' := h
      rw [String.append_right_inj] at htext
      rw [eq_of_toString_eq htext]
    | _ => cases hletter
  | function name =>
    cases l' with
    | function name' =>
      have htext : "function_" ++ name = "function_" ++ name' := h
      rw [String.append_right_inj] at htext
      rw [htext]
    | _ => cases hletter
  | routine r =>
    cases l' with
    | routine r' => rw [Routine.text_injective h]
    | _ => cases hletter

/-! ### Labels of the parts of lowered code -/

section Parts

variable (r : Register) (n : UInt32) (size : Nat) (verbose : Bool)

@[simp]
theorem labels_loadConstant : labels (loadConstant r n) = [] := by
  unfold loadConstant
  split
  · rfl
  · split <;> rfl

@[simp]
theorem labels_loadCell (scratch : Register) (address : Nat) :
    labels (loadCell r scratch address) = [] := by
  simp [loadCell]

@[simp]
theorem labels_moveCursor (d : Direction) (amount : Nat) :
    labels (moveCursor size d amount) = [] := by
  by_cases h : size ≤ amount <;> cases d <;> simp [moveCursor, h, jump]

@[simp]
theorem labels_storeInput (v : Cell) (address : Nat) : labels (storeInput v address) = [] := by
  simp [storeInput]

/-- The only label in the code of an instruction is that of a function it opens. -/
theorem labels_lowerInstruction (line : Nat) (instruction : Instruction) :
    labels (lowerInstruction size line instruction) =
      match instruction with
      | .function name => [.function name]
      | _ => [] := by
  cases instruction with
  | jumpBy d amount => cases d <;> rfl
  | _ => simp [lowerInstruction, jump]

theorem labels_lowerStatement (s : Statement) :
    labels (lowerStatement size verbose s) =
      .node s.line :: (s.opening?.map fun f ↦ Label.function f.1).toList := by
  rw [lowerStatement, labels_append, labels_lowerInstruction, labels_label_cons, labels_remark]
  cases h : s.instruction <;> simp [Statement.opening?, h]

theorem labels_setup (options : Options) (inputs : List Cell) :
    labels (setup options size inputs) = [.entry options.entry, .routine .clear] := by
  have hinputs {f : Cell × Nat → List Line} (hf : ∀ v, labels (f v) = []) :
      labels (inputs.zipIdx.flatMap f) = [] := by
    rw [labels, List.filterMap_flatMap]
    exact List.flatMap_eq_nil_iff.2 fun v _ ↦ hf v
  simp [setup, hinputs]

theorem labels_header (length : Nat) : labels (header length size) = [] :=
  rfl

theorem labels_printRoutine :
    labels (printRoutine verbose) = [.routine .print, .routine .printDigit] := by
  simp [printRoutine]

theorem labels_exitRoutines :
    labels (exitRoutines verbose) =
      [.routine .memoryFault, .routine .instructionFault, .routine .exit, .routine .terminate] := by
  simp [exitRoutines, jump]

end Parts

/-! ### Lowering along the statements -/

section CodeFrom

variable (layout : Layout) (options : Options) (inputs : List Cell)

/-- The code of the statements that stand from a place on, and of the place after the last one. -/
def codeFrom (place : Nat) : List Statement → List Line
  | [] =>
    arrival layout options inputs place ++
      [.label (.node (place + 1)), jump (.routine .instructionFault)]
  | s :: ss =>
    arrival layout options inputs place ++ lowerStatement layout.size options.verbose s ++
      codeFrom (place + 1) ss

/-- The routines after the code of the statements. -/
def routines : List Line :=
  printRoutine options.verbose ++ exitRoutines options.verbose

variable {layout options inputs}

theorem codeFrom_eq (place : Nat) (ss : List Statement) :
    codeFrom layout options inputs place ss =
      (ss.zipIdx place).flatMap (fun (s, place) ↦
        arrival layout options inputs place ++ lowerStatement layout.size options.verbose s) ++
      arrival layout options inputs (place + ss.length) ++
      [.label (.node (place + ss.length + 1)), jump (.routine .instructionFault)] := by
  induction ss generalizing place with
  | nil => rfl
  | cons s ss ih =>
    have hplace : place + 1 + ss.length = place + (s :: ss).length := by
      rw [List.length_cons, Nat.add_right_comm, Nat.add_assoc]
    rw [codeFrom, ih, hplace, List.zipIdx_cons, List.flatMap_cons]
    simp only [List.append_assoc]

theorem lower_eq (p : Program) :
    lower p layout options inputs =
      header p.length layout.size ++ codeFrom layout options inputs 0 p.statements ++
        routines options := by
  rw [lower, codeFrom_eq, routines, Nat.zero_add]
  simp only [Program.length, List.append_assoc]

theorem labels_arrival (place : Nat) :
    labels (arrival layout options inputs place) =
      if place = layout.start then [.entry options.entry, .routine .clear] else [] := by
  unfold arrival
  split
  · rw [labels_append, labels_setup]
    split <;> rfl
  · rfl

/-- The statements stand on the lines that follow a place. -/
def Numbered (place : Nat) (ss : List Statement) : Prop :=
  ∀ j s, ss[j]? = some s → s.line = place + j + 1

theorem Numbered.tail {place : Nat} {s : Statement} {ss : List Statement}
    (h : Numbered place (s :: ss)) : Numbered (place + 1) ss := by
  intro j t ht
  have := h (j + 1) t ht
  omega

theorem numbered_statements {p : Program} (hp : p.WellFormed) : Numbered 0 p.statements := by
  intro j s hs
  rw [Nat.zero_add]
  exact hp.line_eq hs

/-- What the code from a place on is labelled with. -/
theorem mem_labels_codeFrom {place : Nat} {ss : List Statement} {l : Label}
    (hnumbered : Numbered place ss)
    (h : l ∈ labels (codeFrom layout options inputs place ss)) :
    (∃ line, place < line ∧ l = .node line) ∨
      (∃ f ∈ ss.filterMap Statement.opening?, l = .function f.1) ∨
      (place ≤ layout.start ∧ (l = .entry options.entry ∨ l = .routine .clear)) := by
  induction ss generalizing place with
  | nil =>
    rw [codeFrom, labels_append, labels_arrival, List.mem_append] at h
    rcases h with h | h
    · split at h
      · next heq => exact .inr (.inr ⟨by omega, by simpa using h⟩)
      · cases h
    · exact .inl ⟨place + 1, by omega, by simpa [jump] using h⟩
  | cons s ss ih =>
    have hline := hnumbered 0 s rfl
    rw [codeFrom, labels_append, labels_append, labels_arrival, labels_lowerStatement,
      List.mem_append, List.mem_append, List.mem_cons] at h
    rcases h with (h | h | h) | h
    · split at h
      · next heq => exact .inr (.inr ⟨by omega, by simpa using h⟩)
      · cases h
    · exact .inl ⟨s.line, by omega, h⟩
    · obtain ⟨f, hf, rfl⟩ := Option.map_eq_some_iff.1 (Option.mem_toList.1 h)
      refine .inr (.inl ⟨f, ?_, rfl⟩)
      rw [List.filterMap_cons_some hf]
      exact List.mem_cons_self
    · rcases ih hnumbered.tail h with ⟨line, hlt, rfl⟩ | ⟨f, hf, rfl⟩ | ⟨hle, hl⟩
      · exact .inl ⟨line, by omega, rfl⟩
      · refine .inr (.inl ⟨f, ?_, rfl⟩)
        rw [List.mem_filterMap] at hf ⊢
        obtain ⟨t, ht, hf⟩ := hf
        exact ⟨t, List.mem_cons_of_mem _ ht, hf⟩
      · exact .inr (.inr ⟨by omega, hl⟩)

/-- **No label is set twice** from a place on. -/
theorem nodup_labels_codeFrom {place : Nat} {ss : List Statement}
    (hnumbered : Numbered place ss)
    (hnames : ((ss.filterMap Statement.opening?).map Prod.fst).Nodup) :
    (labels (codeFrom layout options inputs place ss)).Nodup := by
  induction ss generalizing place with
  | nil =>
    rw [codeFrom, labels_append, labels_arrival]
    split <;> simp [jump]
  | cons s ss ih =>
    have hline := hnumbered 0 s rfl
    have hmem : ∀ l ∈ labels (codeFrom layout options inputs (place + 1) ss), _ :=
      fun l ↦ mem_labels_codeFrom hnumbered.tail
    have hnames' : ((ss.filterMap Statement.opening?).map Prod.fst).Nodup := by
      cases hs : s.opening? with
      | none => rwa [List.filterMap_cons_none hs] at hnames
      | some f =>
        rw [List.filterMap_cons_some hs, List.map_cons, List.nodup_cons] at hnames
        exact hnames.2
    rw [codeFrom, labels_append, labels_append, labels_arrival, labels_lowerStatement,
      List.append_assoc, List.nodup_append]
    refine ⟨by split <;> simp, ?_, ?_⟩
    · -- The node has a line that no later label has, and the function a name that none has.
      rw [List.cons_append, List.nodup_cons, List.nodup_append]
      refine ⟨?_, by cases s.opening? <;> simp, ih hnumbered.tail hnames', ?_⟩
      · intro h
        rcases List.mem_append.1 h with h | h
        · simp at h
        · rcases hmem _ h with ⟨line, hlt, heq⟩ | ⟨f, -, heq⟩ | ⟨-, heq | heq⟩ <;> cases heq
          omega
      · intro l hl l' hl' heq
        obtain ⟨f, hf, rfl⟩ := Option.map_eq_some_iff.1 (Option.mem_toList.1 hl)
        rw [List.filterMap_cons_some hf, List.map_cons, List.nodup_cons] at hnames
        rcases hmem _ hl' with ⟨line, -, rfl⟩ | ⟨g, hg, rfl⟩ | ⟨-, rfl | rfl⟩
        · cases heq
        · injection heq with hname
          exact hnames.1 (List.mem_map.2 ⟨g, hg, hname.symm⟩)
        · cases heq
        · cases heq
    · -- The setup stands at one place only, so none of its labels come again.
      intro l hl l' hl' heq
      subst heq
      split at hl
      · next hstart =>
        have hkind : l = .entry options.entry ∨ l = .routine .clear := by simpa using hl
        rcases List.mem_append.1 hl' with hl' | hl'
        · rcases hkind with rfl | rfl <;> simp at hl'
        · rcases hmem _ hl' with ⟨line, -, rfl⟩ | ⟨f, -, rfl⟩ | ⟨hle, -⟩
          · simp at hkind
          · simp at hkind
          · omega
      · cases hl

/-- The labels of a whole program. -/
theorem labels_lower (p : Program) :
    labels (lower p layout options inputs) =
      labels (codeFrom layout options inputs 0 p.statements) ++
        [.routine .print, .routine .printDigit, .routine .memoryFault, .routine .instructionFault,
          .routine .exit, .routine .terminate] := by
  rw [lower_eq, labels_append, labels_append, labels_header, routines, labels_append,
    labels_printRoutine, labels_exitRoutines]
  rfl

theorem nodup_labels_lower {p : Program} (hp : p.WellFormed) :
    (labels (lower p layout options inputs)).Nodup := by
  have hnames := hp.nodup_names
  rw [hp.table_eq] at hnames
  rw [labels_lower, List.nodup_append]
  refine ⟨nodup_labels_codeFrom (numbered_statements hp) hnames, by decide, ?_⟩
  intro l hl l' hl' heq
  subst heq
  rcases mem_labels_codeFrom (numbered_statements hp) hl with
    ⟨line, -, rfl⟩ | ⟨f, -, rfl⟩ | ⟨-, rfl | rfl⟩ <;> simp at hl'

/-- **Lowered code is unambiguous** when no other label of it has the name of the entry. -/
theorem unambiguous_lower {p : Program} (hp : p.WellFormed)
    (hentry : ∀ l ∈ labels (lower p layout options inputs), l.text = options.entry →
      l = .entry options.entry) :
    Unambiguous (lower p layout options inputs) := by
  have hname : ∀ l ∈ labels (lower p layout options inputs), ∀ name, l = .entry name →
      name = options.entry := by
    rintro _ hl name rfl
    rw [labels_lower] at hl
    rcases List.mem_append.1 hl with hl | hl
    · rcases mem_labels_codeFrom (numbered_statements hp) hl with
        ⟨line, -, heq⟩ | ⟨f, -, heq⟩ | ⟨-, heq | heq⟩ <;> injection heq
    · simp at hl
  refine List.Nodup.map_on (fun l hl l' hl' htext ↦ ?_) (nodup_labels_lower hp)
  by_cases h : ∃ name, l = .entry name
  · obtain ⟨name, rfl⟩ := h
    obtain rfl := hname _ hl _ rfl
    exact (hentry l' hl' htext.symm).symm
  · by_cases h' : ∃ name, l' = .entry name
    · obtain ⟨name, rfl⟩ := h'
      obtain rfl := hname _ hl' _ rfl
      exact hentry l hl htext
    · exact Label.eq_of_text_eq (fun name heq ↦ h ⟨name, heq⟩) (fun name heq ↦ h' ⟨name, heq⟩) htext

end CodeFrom

end CursorMachine.Arm
