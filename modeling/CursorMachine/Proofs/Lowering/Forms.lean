import CursorMachine.Proofs.Lowering.Checks
import CursorMachine.Proofs.Lowering.Listing
import CursorMachine.Proofs.Reading.Display

/-!
# The forms of lowered lines

A program chooses names and numbers, and nothing else of its lowered text. Here this is said by
*forms*: texts of lowering's own with gaps between them. The lists of forms are fixed before there
is a program, and every line of lowered code fills in one of them, with decimal numbers and
identifiers in the gaps (`Line.IsLowered.exists_lineText`). What is put into a gap has no character
that could end a line or a label, start a remark, or separate words (`Fills.harmless`).

Main statement: the text of lowered code is cut into the lines that lowering made, printable
throughout, and each has one of these forms (`text_of_generate`).
-/

namespace CursorMachine.Arm

/-! ### Forms -/

/-- A part of a form. -/
inductive Part where
  /-- A text of lowering's own. -/
  | own (s : String)
  /-- A gap for a decimal number. -/
  | number
  /-- A gap for an identifier. -/
  | name
  deriving DecidableEq, Repr

/-- The text fills in the form, with the given texts in its gaps. -/
inductive Fills : List Part → List String → String → Prop where
  | nil : Fills [] [] ""
  | own {form : List Part} {given : List String} {text : String} (s : String)
      (h : Fills form given text) : Fills (.own s :: form) given (s ++ text)
  | number {form : List Part} {given : List String} {text : String} (n : Int)
      (h : Fills form given text) :
      Fills (.number :: form) (toString n :: given) (toString n ++ text)
  | name {form : List Part} {given : List String} {text name : String}
      (hname : Text.isIdentifier name = true) (h : Fills form given text) :
      Fills (.name :: form) (name :: given) (name ++ text)

/-- A text with nothing in it that separates words, ends a line or a label, or starts a remark. -/
def Harmless (s : String) : Prop :=
  ∀ c ∈ s.toList, Text.isBlank c = false ∧ c ≠ '\n' ∧ c ≠ ':' ∧ c ≠ '@'

/-- The gaps after the phrase of a keyword. -/
def operandGaps : Keyword → List Part
  | .moveBy _ | .moveTo | .copyTo | .jumpBy _ | .jumpTo | .set | .update _ => [.number]
  | .compare _ => [.number, .number]
  | .function | .call => [.name]
  | .print | .close | .exit => []

/-- The forms of remarks: on the whole program, on parts of it, and on a statement. -/
def remarkForms : List (List Part) :=
  [[.own "HRA program: ", .number, .own " line(s), ", .number, .own " memory cell(s)"],
    [.own "reserve and clear ", .number, .own " memory cell(s)"],
    [.own "store ", .number, .own " input value(s)"],
    [.own "print r0 in decimal to stdout"],
    [.own "faults and exit; the status of a normal exit is memory cell 0"]] ++
  Keyword.all.map fun k ↦
    .number :: .own ": " :: .own k.phrase :: (operandGaps k).flatMap fun gap ↦ [.own " ", gap]

/-- The forms of labels that lowered code branches to. -/
def targetForms : List (List Part) :=
  [[.own "node_", .number], [.own "function_", .name], [.own "hra_clear"],
    [.own "hra_memory_fault"], [.own "hra_instruction_fault"], [.own "hra_exit"],
    [.own "hra_terminate"], [.own "hra_print"], [.own "hra_print_digit"]]

/-- The forms of labels. -/
def labelForms : List (List Part) :=
  [.name] :: targetForms

/-- The forms of directives. -/
def directiveForms : List (List Part) :=
  [[.own ".syntax unified"], [.own ".arch armv7-a"], [.own ".text"], [.own ".global ", .name]]

/-- The mnemonics of lowered code. -/
def ownMnemonics : List String :=
  ["mov", "movw", "movt", "movlt", "movs", "add", "sub", "rsblt", "mul", "umull", "lsr", "cmp",
    "ldr", "str", "strlo", "strb", "strblt", "b", "beq", "bne", "blt", "bgt", "blo", "bhi", "bl",
    "push", "pop", "svc"]

/-- The forms of operands: those of the operations that have no gap, constants, and labels. -/
def operandForms : List (List Part) :=
  ownOperations.map (fun o ↦ [.own o.operands]) ++
    constantRegisters.map (fun r ↦ [.own r.text, .own ", #", .number]) ++ targetForms

/-- A line of lowered code as written, with what is given in it. -/
inductive LineText : List String → String → Prop where
  | remark {form : List Part} {given : List String} {text : String} (hform : form ∈ remarkForms)
      (h : Fills form given text) : LineText given ("@ " ++ text)
  | label {form : List Part} {given : List String} {name : String} (hform : form ∈ labelForms)
      (h : Fills form given name) (hname : Text.isIdentifier name = true) :
      LineText given (name ++ ":")
  | directive {form : List Part} {given : List String} {text : String}
      (hform : form ∈ directiveForms) (h : Fills form given text) : LineText given ("    " ++ text)
  | operation {form : List Part} {given : List String} {mnemonic operands : String}
      (hmnemonic : mnemonic ∈ ownMnemonics) (hform : form ∈ operandForms)
      (h : Fills form given operands) :
      LineText given ("    " ++ mnemonic ++ " " ++ operands)

/-! ### Filling in -/

theorem fills_own (s : String) : Fills [.own s] [] s := by
  simpa only [String.append_empty] using Fills.own s .nil

theorem fills_int (n : Int) : Fills [.number] [toString n] (toString n) := by
  simpa only [String.append_empty] using Fills.number n .nil

theorem fills_nat (n : Nat) : Fills [.number] [toString n] (toString n) :=
  fills_int n

theorem fills_name {name : String} (h : Text.isIdentifier name = true) :
    Fills [.name] [name] name := by
  simpa only [String.append_empty] using Fills.name h .nil

theorem Fills.append {form form' : List Part} {given given' : List String} {text text' : String}
    (h : Fills form given text) (h' : Fills form' given' text') :
    Fills (form ++ form') (given ++ given') (text ++ text') := by
  induction h with
  | nil =>
    rw [String.empty_append]
    exact h'
  | own s _ ih =>
    rw [String.append_assoc]
    exact .own s ih
  | number n _ ih =>
    rw [String.append_assoc]
    exact .number n ih
  | name hname _ ih =>
    rw [String.append_assoc]
    exact .name hname ih

/-! ### What is given -/

/-- Neither digits and letters nor a minus sign do harm. -/
theorem harmless_of_isIdentifierTail {s : String}
    (h : ∀ c ∈ s.toList, c = '-' ∨ Text.isIdentifierTail c = true) : Harmless s := by
  intro c hc
  rcases h c hc with rfl | htail
  · decide
  · refine ⟨Text.isBlank_of_isIdentifierTail htail, ?_, ?_, ?_⟩ <;>
      · rintro rfl
        exact absurd htail (by decide)

/-- What is put into a gap does no harm. -/
theorem Fills.harmless {form : List Part} {given : List String} {text : String}
    (h : Fills form given text) : ∀ s ∈ given, Harmless s := by
  induction h with
  | nil => exact List.forall_mem_nil _
  | own s _ ih => exact ih
  | number n _ ih =>
    have hnumber : Harmless (toString n) :=
      harmless_of_isIdentifierTail fun _ ↦ Text.isIdentifierTail_of_mem_int
    exact List.forall_mem_cons.2 ⟨hnumber, ih⟩
  | @name form given text name hname _ ih =>
    have hharmless : Harmless name :=
      harmless_of_isIdentifierTail fun _ hc ↦ .inr (Text.isIdentifierTail_of_mem hname hc)
    exact List.forall_mem_cons.2 ⟨hharmless, ih⟩

theorem LineText.harmless {given : List String} {text : String} (h : LineText given text) :
    ∀ s ∈ given, Harmless s := by
  cases h with
  | remark _ h | label _ h | directive _ h | operation _ _ h => exact h.harmless

/-! ### Lowered lines -/

/-- A written instruction is the phrase of its keyword with operands in the gaps. -/
theorem exists_fills_text {i : Instruction} (h : i.InRange) :
    ∃ given, Fills (.own i.keyword.phrase ::
      (operandGaps i.keyword).flatMap fun gap ↦ [.own " ", gap]) given i.text := by
  have hone {phrase w : String} {gap : Part} {given : List String} (hgap : Fills [gap] given w) :
      Fills [.own phrase, .own " ", gap] given (" ".intercalate [phrase, w]) :=
    ((fills_own phrase).append (fills_own " ")).append hgap
  cases i with
  | moveBy d n | jumpBy d n => exact ⟨_, hone (fills_nat n)⟩
  | moveTo n | copyTo n | jumpTo n => exact ⟨_, hone (fills_nat n)⟩
  | set v | update u v => exact ⟨_, hone (fills_int v.toInt)⟩
  | function name | call name => exact ⟨_, hone (fills_name h)⟩
  | compare r a b =>
    exact ⟨_, (((hone (fills_nat a)).append (fills_own " ")).append (fills_nat b))⟩
  | print | close | exit => exact ⟨_, fills_own _⟩

theorem IsRemark.exists_fills {text : String} (h : IsRemark text) :
    ∃ form ∈ remarkForms, ∃ given, Fills form given text := by
  cases h with
  | header length size =>
    have hlines := ((fills_own "HRA program: ").append (fills_nat length)).append
      (fills_own " line(s), ")
    exact ⟨_, List.mem_append_left _ (.head _), _,
      (hlines.append (fills_nat size)).append (fills_own " memory cell(s)")⟩
  | statement line h =>
    rename_i i
    obtain ⟨given, hfills⟩ := exists_fills_text h
    exact ⟨_, List.mem_append_right _ (List.mem_map.2 ⟨i.keyword, i.keyword.mem_all, rfl⟩), _,
      ((fills_nat line).append (fills_own ": ")).append hfills⟩
  | clear size =>
    exact ⟨_, List.mem_append_left _ (.tail _ (.head _)), _,
      ((fills_own "reserve and clear ").append (fills_nat size)).append
        (fills_own " memory cell(s)")⟩
  | inputs count =>
    exact ⟨_, List.mem_append_left _ (.tail _ (.tail _ (.head _))), _,
      ((fills_own "store ").append (fills_nat count)).append (fills_own " input value(s)")⟩
  | print => exact ⟨_, List.mem_append_left _ (by simp), _, fills_own _⟩
  | exit => exact ⟨_, List.mem_append_left _ (by simp), _, fills_own _⟩

theorem Label.IsTarget.exists_fills {l : Label} (h : l.IsTarget) :
    ∃ form ∈ targetForms, ∃ given, Fills form given l.text := by
  cases h with
  | node line => exact ⟨_, .head _, _, (fills_own "node_").append (fills_nat line)⟩
  | function h => exact ⟨_, .tail _ (.head _), _, (fills_own "function_").append (fills_name h)⟩
  | routine r => exact ⟨[.own r.text], by cases r <;> decide, _, fills_own _⟩

/-- The operands that put a constant into a register. -/
theorem fills_constant (r : Register) (n : UInt32) :
    Fills [.own r.text, .own ", #", .number] [toString n.toNat]
      (r.text ++ ", #" ++ toString n.toNat) :=
  ((fills_own r.text).append (fills_own ", #")).append (fills_nat n.toNat)

/-- A lowered line as written has one of the forms, when the entry is an identifier. -/
theorem Line.IsLowered.exists_lineText {entry : String}
    (hentry : Text.isIdentifier entry = true) {line : Line} (h : line.IsLowered entry) :
    ∃ given, LineText given line.text := by
  cases h with
  | remark h =>
    obtain ⟨form, hform, given, hfills⟩ := h.exists_fills
    exact ⟨given, .remark hform hfills⟩
  | entry => exact ⟨_, .label (.head _) (fills_name hentry) hentry⟩
  | label h =>
    obtain ⟨form, hform, given, hfills⟩ := h.exists_fills
    exact ⟨given, .label (.tail _ hform) hfills h.isIdentifier⟩
  | visible =>
    have hfills := (fills_own ".global ").append (fills_name hentry)
    exact ⟨_, .directive (List.mem_of_getElem? (i := 3) rfl) hfills⟩
  | @directive d h =>
    have hform : ∀ d ∈ [Directive.unifiedSyntax, .architecture, .code],
        [Part.own d.text] ∈ directiveForms := by
      decide
    exact ⟨_, .directive (hform d h) (fills_own _)⟩
  | branch c h =>
    obtain ⟨form, hform, given, hfills⟩ := h.exists_fills
    have hmnemonic : "b" ++ c.suffix ∈ ownMnemonics := by cases c <;> decide
    exact ⟨given, .operation hmnemonic (List.mem_append_right _ hform) hfills⟩
  | call h =>
    obtain ⟨form, hform, given, hfills⟩ := h.exists_fills
    have hmnemonic : "bl" ∈ ownMnemonics := by decide
    exact ⟨given, .operation hmnemonic (List.mem_append_right _ hform) hfills⟩
  | @constant r n hr o h =>
    have hform : [.own r.text, .own ", #", .number] ∈ operandForms :=
      List.mem_append_left _ (List.mem_append_right _ (List.mem_map.2 ⟨r, hr, rfl⟩))
    have hmark : ", " ++ ("#" ++ toString n.toNat) = ", #" ++ toString n.toNat := by
      rw [← String.append_assoc]
      rfl
    have hlow : "movw" ∈ ownMnemonics := by decide
    have hhigh : "movt" ∈ ownMnemonics := by decide
    have hmove : "mov" ∈ ownMnemonics := by decide
    simp only [List.mem_cons, List.not_mem_nil, or_false] at h
    rcases h with rfl | rfl | rfl
    · refine ⟨[toString n.toNat], .operation hmove hform ?_⟩
      show Fills _ _ (r.text ++ ", " ++ ("#" ++ toString n.toNat))
      rw [String.append_assoc, hmark, ← String.append_assoc]
      exact fills_constant r n
    · exact ⟨_, .operation hlow hform (fills_constant r n)⟩
    · exact ⟨_, .operation hhigh hform (fills_constant r n)⟩
  | @own o h =>
    have hmnemonic : ∀ o ∈ ownOperations, o.mnemonic ∈ ownMnemonics := by decide
    have hform : [.own o.operands] ∈ operandForms :=
      List.mem_append_left _ (List.mem_append_left _ (List.mem_map.2 ⟨o, h, rfl⟩))
    exact ⟨_, .operation (hmnemonic o h) hform (fills_own _)⟩

/-! ### The text of lowered code -/

theorem Line.toList_text_ne_nil (line : Line) : line.text.toList ≠ [] := by
  cases line <;> simp [Line.text, remarkMark]

/-- A text of printable lines ends with one line feed. -/
theorem exists_text_eq_append {ls : List Line} (hne : ls ≠ [])
    (h : ∀ line ∈ ls, Text.Printable line.text) :
    ∃ (body : List Char) (c : Char), (text ls).toList = body ++ [c, '\n'] ∧ c ≠ '\n' := by
  obtain ⟨ls, line, rfl⟩ := (List.eq_nil_or_concat ls).resolve_left hne
  obtain ⟨cs, c, hline⟩ := (List.eq_nil_or_concat line.text.toList).resolve_left
    line.toList_text_ne_nil
  refine ⟨(text ls).toList ++ cs, c, ?_, ?_⟩
  · simp [toList_text, hline]
  · rintro rfl
    exact Text.lineFeed_not_mem_of_printable (h line (by simp)) (by simp [hline])

/-- **No program puts anything but names and numbers into its lowered text.** When a source is
lowered, for any layout, options and inputs, the text is printable apart from its line feeds, ends
with exactly one of them, and is cut at them into the lines that lowering made. Each line has one of
the fixed forms, and what is given in it is harmless. -/
theorem text_of_generate {source : String} {p : Program} {layout : Layout} {options : Options}
    {inputs : List Cell} {lines : List Line} (hp : Program.ofText source = .ok p)
    (hlines : generate p layout options inputs = .ok lines) :
    (∀ c ∈ (text lines).toList, Text.isPrintable c = true ∨ c = '\n') ∧
      (∃ body c, (text lines).toList = body ++ [c, '\n'] ∧ c ≠ '\n') ∧
      Text.lines (text lines).toList = lines.map (fun l ↦ l.text.toList) ++ [[]] ∧
      ∀ line ∈ lines, ∃ given, LineText given line.text ∧ ∀ s ∈ given, Harmless s := by
  have hwf := Program.wellFormed_of_ofText hp
  obtain ⟨haccepts, -, rfl⟩ := generate_eq_ok_iff.1 hlines
  have hentry := haccepts.isIdentifier
  have hspelled := allSpelled_lower hwf layout inputs hentry
  have hprintable : ∀ line ∈ lower p layout options inputs, Text.Printable line.text :=
    fun line hline ↦ Line.printable_text (hspelled line hline)
  refine ⟨fun c hc ↦ ?_, exists_text_eq_append ?_ hprintable, lines_text hspelled,
    fun line hline ↦ ?_⟩
  · rw [toList_text] at hc
    obtain ⟨l, hl, hc⟩ := List.mem_flatMap.1 hc
    obtain ⟨line, hline, rfl⟩ := List.mem_map.1 hl
    exact (List.mem_append.1 hc).imp (List.all_eq_true.1 (hprintable line hline) c)
      List.mem_singleton.1
  · simp [lower, header]
  · obtain ⟨given, htext⟩ :=
      (allLowered_lower hwf layout options inputs line hline).exists_lineText hentry
    exact ⟨given, htext, htext.harmless⟩

/-- A program with names and a negative number of its own, all of which get into remarks. -/
theorem text_of_generate_verbose :
    ∃ (p : Program) (m : Machine 1) (lines : List Line),
      Program.ofText "make function go\nset value to -3\nclose\nrun function go\nexit" = .ok p ∧
      Machine.prepare p { cells := 1 } = .ok m ∧
      generate p m.layout { entry := "main", verbose := true } [] = .ok lines ∧
      (∀ c ∈ (text lines).toList, Text.isPrintable c = true ∨ c = '\n') ∧
      (∃ body c, (text lines).toList = body ++ [c, '\n'] ∧ c ≠ '\n') ∧
      Text.lines (text lines).toList = lines.map (fun l ↦ l.text.toList) ++ [[]] ∧
      ∃ line ∈ lines, line.text = "@ 2: set value to -3" ∧
        ∃ given, LineText given line.text ∧ ∀ s ∈ given, Harmless s := by
  let p : Program := ⟨[⟨1, ["go"], .function "go"⟩, ⟨2, ["-3"], .set (-3)⟩, ⟨3, [], .close⟩,
    ⟨4, ["go"], .call "go"⟩, ⟨5, [], .exit⟩], [⟨"go", 1, 3⟩]⟩
  let m : Machine 1 := ⟨#v[0], 0, 3, [("go", 1)], #[]⟩
  let options : Options := { entry := "main", verbose := true }
  have hp : Program.ofText
      "make function go\nset value to -3\nclose\nrun function go\nexit" = .ok p := by
    rfl
  have hm : Machine.prepare p { cells := 1 } = .ok m := by rfl
  have haccepts : m.layout.Accepts options [] := ⟨by decide, by decide, by decide, by decide⟩
  have hlines : generate p m.layout options [] = .ok (lower p m.layout options []) :=
    generate_eq_ok_iff.2 ⟨haccepts, by decide, rfl⟩
  have hremark : (lower p m.layout options [])[8]? = some (.remark "2: set value to -3") := by rfl
  obtain ⟨hprintable, hend, hcut, hforms⟩ := text_of_generate hp hlines
  have hmem := List.mem_of_getElem? hremark
  exact ⟨p, m, _, hp, hm, hlines, hprintable, hend, hcut, _, hmem, by decide, hforms _ hmem⟩

end CursorMachine.Arm
