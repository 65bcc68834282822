import CursorMachine.Proofs.Lowering.Arrangement
import CursorMachine.Proofs.Lowering.Places

/-!
# Remarks add nothing but themselves

Remarks are asked for by `Options.verbose`, and every part of lowered code has some. Main statement:
it is all the same to the rest (`remarks_of_generate`). With and without remarks a program is
refused with the same error, or lowered to two texts that are one text once their remarks are
deleted. And in the text with remarks, the label of every line is followed by one remark, which
shows the line.

It rests on two facts.

* `unremarked` drops the remarks among lines, and what is left of lowered code does not depend on
  whether they were asked for (`unremarked_lower`). In a text, remarks are told by how they start,
  as no label, directive or operation starts that way (`Line.startsRemark_text`), so to delete lines
  of a text is to drop remarks (`withoutRemarks_text`).
* The code of a line begins with its label and its remark, and what comes next is no remark
  (`exists_lower_eq_append`). No other line of the text reads like the label, as no other line sets
  the same name (`remarkedOnce_text`).
-/

namespace CursorMachine.Arm

/-! ### Lines without remarks -/

/-- The line is a remark. -/
def Line.isRemark : Line → Bool
  | .remark _ => true
  | _ => false

/-- The lines that are no remarks. -/
def unremarked (code : List Line) : List Line :=
  code.filter (!·.isRemark)

section Parts

variable {before after : List Line} (size : Nat) (verbose : Bool)

theorem unremarked_append :
    unremarked (before ++ after) = unremarked before ++ unremarked after :=
  List.filter_append before after

theorem unremarked_flatMap {α : Type} (l : List α) (f : α → List Line) :
    unremarked (l.flatMap f) = l.flatMap fun a ↦ unremarked (f a) :=
  List.filter_flatMap

theorem unremarked_remark (text : String) : unremarked (remark verbose text) = [] := by
  cases verbose <;> rfl

theorem unremarked_lowerStatement (s : Statement) :
    unremarked (lowerStatement size verbose s) = unremarked (lowerStatement size false s) := by
  cases verbose <;> rfl

theorem unremarked_setup (entry : String) (inputs : List Cell) :
    unremarked (setup ⟨entry, verbose⟩ size inputs) =
      unremarked (setup ⟨entry, false⟩ size inputs) := by
  simp only [setup, unremarked_append, unremarked_remark]

theorem unremarked_arrival (layout : Layout) (entry : String) (inputs : List Cell) (place : Nat) :
    unremarked (arrival layout ⟨entry, verbose⟩ inputs place) =
      unremarked (arrival layout ⟨entry, false⟩ inputs place) := by
  unfold arrival
  split
  · rw [unremarked_append, unremarked_setup, unremarked_append]
  · rfl

theorem unremarked_printRoutine :
    unremarked (printRoutine verbose) = unremarked (printRoutine false) := by
  simp only [printRoutine, unremarked_append, unremarked_remark]

theorem unremarked_exitRoutines :
    unremarked (exitRoutines verbose) = unremarked (exitRoutines false) := by
  simp only [exitRoutines, unremarked_append, unremarked_remark]

/-- **But for remarks, lowered code does not depend on whether they are asked for.** -/
theorem unremarked_lower (p : Program) (layout : Layout) (entry : String) (inputs : List Cell) :
    unremarked (lower p layout ⟨entry, verbose⟩ inputs) =
      unremarked (lower p layout ⟨entry, false⟩ inputs) := by
  simp only [lower, unremarked_append, unremarked_flatMap, unremarked_arrival verbose,
    unremarked_lowerStatement _ verbose, unremarked_printRoutine verbose,
    unremarked_exitRoutines verbose]

end Parts

/-! ### Texts without remarks -/

/-- The line of a text is a remark, going by how it starts. -/
def startsRemark (l : List Char) : Bool :=
  remarkMark.toList.isPrefixOf l

/-- The text without the lines that are remarks. -/
def withoutRemarks (s : String) : String :=
  .ofList (['\n'].intercalate ((Text.lines s.toList).filter (!startsRemark ·)))

/-- **Remarks are told by how they start**: nothing else that is spelled starts like them. -/
theorem Line.startsRemark_text {line : Line} (h : line.IsSpelled) :
    startsRemark line.text.toList = line.isRemark := by
  cases line with
  | remark text => simp [Line.text, remarkMark, startsRemark, isRemark]
  | label l =>
    have hl : Text.isIdentifier l.text = true := h l rfl
    obtain ⟨c, cs, hname⟩ := List.exists_cons_of_ne_nil (Text.ne_nil_of_isIdentifier hl)
    have hc : c ≠ '@' := by
      rintro rfl
      exact absurd (Text.isIdentifierTail_of_mem hl (hname ▸ List.mem_cons_self)) (by decide)
    simpa [Line.text, remarkMark, startsRemark, isRemark, hname, List.isPrefixOf] using hc.symm
  | directive d => simp [Line.text, remarkMark, startsRemark, isRemark, List.isPrefixOf]
  | operation o => simp [Line.text, remarkMark, startsRemark, isRemark, List.isPrefixOf]

/-- **Deleting the remarks of a text is dropping them from its lines.** -/
theorem withoutRemarks_text {ls : List Line} (h : AllSpelled ls) :
    withoutRemarks (text ls) = text (unremarked ls) := by
  have hkept : AllSpelled (unremarked ls) := fun line hline ↦ h line (List.mem_of_mem_filter hline)
  have hfilter : (ls.map fun l ↦ l.text.toList).filter (!startsRemark ·) =
      (unremarked ls).map fun l ↦ l.text.toList := by
    rw [List.filter_map, unremarked]
    refine congrArg _ (List.filter_congr fun line hline ↦ ?_)
    rw [Function.comp_apply, Line.startsRemark_text (h line hline)]
  have hlines : (Text.lines (text ls).toList).filter (!startsRemark ·) =
      Text.lines (text (unremarked ls)).toList := by
    rw [lines_text h, lines_text hkept, List.filter_append, hfilter]
    rfl
  rw [withoutRemarks, hlines, Text.lines, List.intercalate_splitOn, String.ofList_toList]

/-! ### Remarks of statements -/

/-- In the lines of a text, the first text makes up one line, right below it stands the second text,
and the line after that is no remark. -/
def RemarkedOnce (ls : List (List Char)) (label remark : String) : Prop :=
  ∃ above below, ls = above ++ label.toList :: remark.toList :: below ∧
    label.toList ∉ above ∧ label.toList ∉ below ∧ ∀ l ∈ below.head?, startsRemark l = false

/-- The code does not start with a remark. -/
def GoesOn (code : List Line) : Prop :=
  ∀ line ∈ code.head?, line.isRemark = false

section Statements

variable {p : Program} {layout : Layout} {options : Options} {inputs : List Cell}
  {before after : List Line}

theorem GoesOn.append (hbefore : GoesOn before) (hafter : GoesOn after) :
    GoesOn (before ++ after) := by
  cases before with
  | nil => exact hafter
  | cons line before => exact hbefore

theorem goesOn_nil : GoesOn [] := by
  rintro line ⟨⟩

theorem goesOn_cons {line : Line} (h : line.isRemark = false) : GoesOn (line :: after) := by
  rintro line ⟨⟩
  exact h

theorem goesOn_loadConstant (r : Register) (n : UInt32) : GoesOn (loadConstant r n) := by
  unfold loadConstant
  split <;> exact goesOn_cons rfl

theorem goesOn_moveCursor (size : Nat) (d : Direction) (n : Nat) :
    GoesOn (moveCursor size d n) := by
  unfold moveCursor
  dsimp only
  split
  · exact goesOn_cons rfl
  · simp only [List.append_assoc]
    exact (goesOn_loadConstant _ _).append (goesOn_cons rfl)

theorem goesOn_lowerInstruction (size line : Nat) (i : Instruction) :
    GoesOn (lowerInstruction size line i) := by
  cases i with
  | moveBy d n => exact goesOn_moveCursor size d n
  | moveTo a => exact (goesOn_loadConstant _ _).append (goesOn_cons rfl)
  | set v => exact (goesOn_loadConstant _ _).append (goesOn_cons rfl)
  | compare r a b =>
    have hcell : GoesOn (loadCell .r0 .r2 a) := (goesOn_loadConstant _ _).append (goesOn_cons rfl)
    simp only [lowerInstruction, List.append_assoc]
    exact hcell.append
      (((goesOn_loadConstant _ _).append (goesOn_cons rfl)).append (goesOn_cons rfl))
  | jumpBy d n => cases d <;> exact goesOn_cons rfl
  | close => exact goesOn_nil
  | _ => exact goesOn_cons rfl

theorem goesOn_arrival (place : Nat) : GoesOn (arrival layout options inputs place) := by
  unfold arrival
  split
  · split <;> exact goesOn_cons rfl
  · exact goesOn_nil

/-- **The code of a line is its label, its remark and its operations**, and what comes after the
remark is no other one. -/
theorem exists_lower_eq_append (hp : p.WellFormed) {entry : String} {place : Nat} {s : Statement}
    (hs : p.statement? place = some s) :
    ∃ above below, lower p layout ⟨entry, true⟩ inputs =
        above ++ .label (.node (place + 1)) :: .remark s!"{place + 1}: {s.text}" :: below ∧
      GoesOn below := by
  have hlt : place < p.length := (Program.statement?_eq_some_iff.1 hs).1
  obtain ⟨above, hlower⟩ := codeAt_suffix_lower layout ⟨entry, true⟩ inputs hlt.le
  obtain ⟨after, hnext⟩ := exists_codeAt_eq_cons layout ⟨entry, true⟩ inputs hp (place + 1)
  rw [codeAt_of_statement? hs, lowerStatement, hp.line_eq hs] at hlower
  refine ⟨above, lowerInstruction layout.size (place + 1) s.instruction ++
    codeAfter p layout ⟨entry, true⟩ inputs place, ?_, ?_⟩
  · rw [← hlower]
    rfl
  · rw [codeAfter, codeFrom_drop hlt, hnext]
    exact (goesOn_lowerInstruction _ _ _).append ((goesOn_arrival _).append (goesOn_cons rfl))

/-- Nothing else that is spelled reads like a label. -/
theorem Line.exists_eq_label_of_text_eq {line : Line} {l : Label} (hline : line.IsSpelled)
    (hl : (Line.label l).IsSpelled) (h : line.text = (Line.label l).text) :
    ∃ l', line = .label l' ∧ l'.text = l.text := by
  have hnamed : line.named = .label l.named := by
    have hread := Line.read?_text_of_isSpelled hline
    rw [h, Line.read?_text_of_isSpelled hl] at hread
    exact (Option.some.inj hread).symm
  cases line with
  | label l' =>
    injection hnamed with hname
    injection hname with htext
    exact ⟨l', rfl, htext⟩
  | directive d => cases d <;> cases hnamed
  | remark | operation => cases hnamed

/-- A label that no other line sets is written on no other line. -/
theorem toList_text_not_mem_of_not_mem_names {code : List Line} (hcode : AllSpelled code)
    {l : Label} (hl : (Line.label l).IsSpelled) (h : l.text ∉ names code) :
    (Line.label l).text.toList ∉ code.map fun line ↦ line.text.toList := by
  rintro hmem
  obtain ⟨line, hline, htext⟩ := List.mem_map.1 hmem
  obtain ⟨l', rfl, hname⟩ :=
    Line.exists_eq_label_of_text_eq (hcode line hline) hl (String.toList_inj.1 htext)
  refine h (hname ▸ List.mem_map_of_mem (List.mem_filterMap.2 ⟨_, hline, rfl⟩))

/-- A label with a remark below it is remarked once in the text, when no other line sets it and the
code goes on after the remark. -/
theorem remarkedOnce_text {above below : List Line} {l : Label} {r : String}
    (hspelled : AllSpelled (above ++ .label l :: .remark r :: below))
    (hnodup : (names (above ++ .label l :: .remark r :: below)).Nodup) (hbelow : GoesOn below) :
    RemarkedOnce (Text.lines (text (above ++ .label l :: .remark r :: below)).toList)
      (Line.label l).text (Line.remark r).text := by
  obtain ⟨habove, hl, -, hrest⟩ : AllSpelled above ∧ (Line.label l).IsSpelled ∧
      (Line.remark r).IsSpelled ∧ AllSpelled below := by
    simpa only [AllSpelled, List.forall_mem_append, List.forall_mem_cons] using hspelled
  have hnames : names (above ++ .label l :: .remark r :: below) =
      names above ++ l.text :: names below := by
    rw [names, labels_append, List.map_append]
    rfl
  rw [hnames, List.nodup_middle, List.nodup_cons, List.mem_append, not_or] at hnodup
  refine ⟨above.map fun line ↦ line.text.toList, (below.map fun line ↦ line.text.toList) ++ [[]],
    ?_, ?_, ?_, ?_⟩
  · rw [lines_text hspelled]
    simp only [List.map_append, List.map_cons, List.append_assoc, List.cons_append]
  · exact toList_text_not_mem_of_not_mem_names habove hl hnodup.1.1
  · rw [List.mem_append, List.mem_singleton, not_or]
    refine ⟨toList_text_not_mem_of_not_mem_names hrest hl hnodup.1.2, ?_⟩
    simp [Line.text]
  · cases below with
    | nil =>
      rintro line ⟨⟩
      rfl
    | cons line below =>
      rintro _ ⟨⟩
      rw [Line.startsRemark_text (hrest line List.mem_cons_self)]
      exact hbelow line rfl

/-- **Every line is remarked once**, unless the entry has the name of a label of the program. -/
theorem remarkedOnce_lower (hp : p.WellFormed) (hstart : layout.start ≤ p.length) {entry : String}
    (hentry : Text.isIdentifier entry = true) (hown : entry ∉ ownNames p) {place : Nat}
    {s : Statement} (hs : p.statement? place = some s) :
    RemarkedOnce (Text.lines (text (lower p layout ⟨entry, true⟩ inputs)).toList)
      s!"node_{place + 1}:" s!"@ {place + 1}: {s.text}" := by
  have hspelled : AllSpelled (lower p layout ⟨entry, true⟩ inputs) :=
    allSpelled_lower hp layout inputs hentry
  have hnodup : (names (lower p layout ⟨entry, true⟩ inputs)).Nodup :=
    (perm_names_lower hp hstart).nodup_iff.2 (List.nodup_cons.2 ⟨hown, nodup_ownNames hp⟩)
  have hremark : (Line.remark s!"{place + 1}: {s.text}").text = s!"@ {place + 1}: {s.text}" := by
    show "@" ++ " " ++ (toString (place + 1) ++ ": " ++ s.text) =
      "@ " ++ toString (place + 1) ++ ": " ++ s.text
    simp only [String.append_assoc]
    rfl
  obtain ⟨above, below, hlower, hbelow⟩ :
      ∃ above below, lower p layout ⟨entry, true⟩ inputs =
        above ++ .label (.node (place + 1)) :: .remark s!"{place + 1}: {s.text}" :: below ∧
        GoesOn below :=
    exists_lower_eq_append hp hs
  rw [hlower] at hspelled hnodup ⊢
  rw [← hremark]
  exact remarkedOnce_text hspelled hnodup hbelow

end Statements

/-! ### With and without remarks -/

/-- What lowering refuses has nothing to do with remarks, and what it gives is the code. -/
theorem generate_eq_map (p : Program) (layout : Layout) (entry : String) (verbose : Bool)
    (inputs : List Cell) :
    generate p layout ⟨entry, verbose⟩ inputs =
      (generate p layout ⟨entry, false⟩ inputs).map
        fun _ ↦ lower p layout ⟨entry, verbose⟩ inputs := by
  unfold generate
  dsimp only
  split
  · rfl
  · split
    · rfl
    · split
      · rfl
      · cases p.statements.forM fun s ↦ s.check layout p.length <;> rfl

/-- **Remarks add nothing but themselves.** A program that was read, on a machine prepared for it,
under any entry and with any inputs, is refused with the same error whether remarks are asked for or
not, or else it is lowered both times. Then the two texts are the same once the lines that are
remarks are deleted from both. When the entry has a name of its own, the label of every line stands
on one line of the text with remarks, and one remark follows it: the number of the line and the
statement as a program writes it. -/
theorem remarks_of_generate {source : String} {p : Program} {setup : Setup}
    {m : Machine setup.cells} (hp : Program.ofText source = .ok p)
    (hm : Machine.prepare p setup = .ok m) (entry : String) (inputs : List Cell) :
    (∃ e, generate p m.layout ⟨entry, true⟩ inputs = .error e ∧
        generate p m.layout ⟨entry, false⟩ inputs = .error e) ∨
      ∃ remarked plain, generate p m.layout ⟨entry, true⟩ inputs = .ok remarked ∧
        generate p m.layout ⟨entry, false⟩ inputs = .ok plain ∧
        withoutRemarks (text remarked) = withoutRemarks (text plain) ∧
        (entry ∉ ownNames p → ∀ place s, p.statement? place = some s →
          RemarkedOnce (Text.lines (text remarked).toList)
            s!"node_{place + 1}:" s!"@ {place + 1}: {s.text}") := by
  have hwf := Program.wellFormed_of_ofText hp
  have hstart : m.layout.start ≤ p.length := by
    rw [layout_eq_of_prepare hm]
    exact hwf.entry_le_length
  rw [generate_eq_map p m.layout entry true inputs]
  rcases hplain : generate p m.layout ⟨entry, false⟩ inputs with e | plain
  · exact .inl ⟨e, rfl, rfl⟩
  · obtain ⟨haccepts, -, rfl⟩ := generate_eq_ok_iff.1 hplain
    have hentry : Text.isIdentifier entry = true := haccepts.isIdentifier
    have hspelled (verbose : Bool) : AllSpelled (lower p m.layout ⟨entry, verbose⟩ inputs) :=
      allSpelled_lower hwf m.layout inputs hentry
    refine .inr ⟨_, _, rfl, rfl, ?_, fun hown place s hs ↦
      remarkedOnce_lower hwf hstart hentry hown hs⟩
    rw [withoutRemarks_text (hspelled true), withoutRemarks_text (hspelled false), unremarked_lower]

/-- A program with a line that has no code of its own, the one that closes a function, and whose
next line is below the entry. -/
theorem remarks_of_generate_close :
    ∃ (p : Program) (m : Machine 2) (remarked plain : List Line),
      Program.ofText "make function go\nprint\nclose\nrun function go\nexit" = .ok p ∧
      Machine.prepare p { cells := 2, inputs := [7] } = .ok m ∧
      generate p m.layout ⟨"main", true⟩ [7] = .ok remarked ∧
      generate p m.layout ⟨"main", false⟩ [7] = .ok plain ∧
      withoutRemarks (text remarked) = withoutRemarks (text plain) ∧
      "main" ∉ ownNames p ∧ p.statement? 2 = some ⟨3, [], .close⟩ ∧
      RemarkedOnce (Text.lines (text remarked).toList) "node_3:" "@ 3: close" := by
  let p : Program := ⟨[⟨1, ["go"], .function "go"⟩, ⟨2, [], .print⟩, ⟨3, [], .close⟩,
    ⟨4, ["go"], .call "go"⟩, ⟨5, [], .exit⟩], [⟨"go", 1, 3⟩]⟩
  let m : Machine 2 := ⟨#v[7, 0], 0, 3, [("go", 1)], #[]⟩
  have hp : Program.ofText "make function go\nprint\nclose\nrun function go\nexit" = .ok p := by rfl
  have hm : Machine.prepare p { cells := 2, inputs := [7] } = .ok m := by rfl
  have hplain : generate p m.layout ⟨"main", false⟩ [7] =
      .ok (lower p m.layout ⟨"main", false⟩ [7]) := by
    rfl
  have hown : "main" ∉ ownNames p := by decide +kernel
  rcases remarks_of_generate hp hm "main" [7] with
    ⟨e, -, herror⟩ | ⟨remarked, plain, hremarked, hplain', hsame, hlines⟩
  · cases hplain.symm.trans herror
  · have hline := hlines hown 2 ⟨3, [], .close⟩ rfl
    have hlabel : s!"node_{2 + 1}:" = "node_3:" := by decide
    have hremark : s!"@ {2 + 1}: {Statement.text ⟨3, [], .close⟩}" = "@ 3: close" := by decide
    rw [hlabel, hremark] at hline
    exact ⟨p, m, remarked, plain, hp, hm, hremarked, hplain', hsame, hown, rfl, hline⟩

end CursorMachine.Arm
