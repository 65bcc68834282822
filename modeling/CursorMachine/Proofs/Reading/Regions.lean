import CursorMachine.Machine
import CursorMachine.Proofs.Reading.Numbering

/-!
# Regions and the table of functions

A program that was read satisfies `Program.WellFormed`: lines are places counted from one, operands
are in range, and the regions are those of its opening lines. Everything later proofs need of the
regions follows from these three.

* `table_eq`: the table of callable functions lists the opening lines, in the order of the text.
* `nodup_names`: no function is opened twice.
* `lookup_table_eq_some_iff`: looking a function up finds its opening line and nothing else.
* `entry_le_length`: the entry is a place of the program or the place after it.
-/

namespace CursorMachine

/-- The name that a statement opens a function under, with its line. -/
def Statement.opening? (s : Statement) : Option (String × Nat) :=
  match s.instruction with
  | .function name => some (name, s.line)
  | _ => none

theorem Statement.opening?_eq_some_iff {s : Statement} {name : String} {line : Nat} :
    s.opening? = some (name, line) ↔ s.instruction = .function name ∧ s.line = line := by
  unfold Statement.opening?
  split
  next inner h => simp [h]
  next h =>
    simp only [reduceCtorEq, false_iff, not_and]
    exact fun hname ↦ absurd hname (h name)

theorem Statement.opening?_eq_none_iff {s : Statement} :
    s.opening? = none ↔ ∀ name, s.instruction ≠ .function name := by
  unfold Statement.opening?
  split
  next name h => simpa using ⟨name, h⟩
  next h => simpa using h

/-- The statement opens no function and closes none, so that a body can hold it. -/
def Statement.IsInner (s : Statement) : Prop := s.opening? = none ∧ s.instruction ≠ .close

/-- The statements stand on the same line, open the same function or none, and close alike. -/
structure Statement.SameBounds (s s' : Statement) : Prop where
  line_eq : s'.line = s.line
  opening?_eq : s'.opening? = s.opening?
  close_iff : s'.instruction = .close ↔ s.instruction = .close

/-! ### Collecting regions -/

namespace Region

variable {taken : List String} {ss : List Statement} {rs : List Region}

theorem ending_cons_of_isInner {s : Statement} (h : s.IsInner) : ending (s :: ss) = ending ss := by
  rw [ending]
  split
  next hclose => exact absurd hclose h.2
  next name hname => exact absurd hname (Statement.opening?_eq_none_iff.1 h.1 name)
  next => rfl

/-- A body is closed by the first statement that cannot be part of it. -/
theorem ending_eq_closed_iff {last : Nat} :
    ending ss = .closed last ↔
      ∃ body c rest, ss = body ++ c :: rest ∧ (∀ b ∈ body, b.IsInner) ∧
        c.instruction = .close ∧ c.line = last := by
  constructor
  · intro h
    induction ss with
    | nil => cases h
    | cons s ss ih =>
      rw [ending] at h
      split at h
      next hclose =>
        cases h
        exact ⟨[], s, ss, rfl, List.forall_mem_nil _, hclose, rfl⟩
      next => cases h
      next hclose hname =>
        obtain ⟨body, c, rest, rfl, hinner, hc, hline⟩ := ih h
        have hs : s.IsInner := ⟨Statement.opening?_eq_none_iff.2 hname, hclose⟩
        exact ⟨s :: body, c, rest, rfl, List.forall_mem_cons.2 ⟨hs, hinner⟩, hc, hline⟩
  · rintro ⟨body, c, rest, rfl, hinner, hc, rfl⟩
    induction body with
    | nil => rw [List.nil_append, ending, hc]
    | cons b body ih =>
      obtain ⟨hb, hbody⟩ := List.forall_mem_cons.1 hinner
      rw [List.cons_append, ending_cons_of_isInner hb]
      exact ih hbody

/-- An opening line is accepted when its name is new and its body is closed, but not at once. -/
theorem ofOpening_eq_ok_iff {line : Nat} {name : String} {r : Region} :
    ofOpening taken line name ss = .ok r ↔
      name ∉ taken ∧
        ∃ last, ending ss = .closed last ∧ last ≠ line + 1 ∧ r = ⟨name, line, last⟩ := by
  unfold ofOpening
  split
  next htaken => simp_all
  next hnew =>
    split
    next h => simp [h]
    next h => simp [h]
    next last h =>
      split
      next hempty => simp [h, hempty]
      next hbody => simp_all [eq_comm]

/-- What one more statement adds to the regions. -/
theorem collect_cons_eq_ok_iff {s : Statement} :
    collect taken (s :: ss) = .ok rs ↔
      (s.opening? = none ∧ collect taken ss = .ok rs) ∨
        ∃ name r rest, s.instruction = .function name ∧ ofOpening taken s.line name ss = .ok r ∧
          collect (name :: taken) ss = .ok rest ∧ rs = r :: rest := by
  rw [collect]
  split
  next name h =>
    rw [bind_eq_ok_iff]
    simp only [Statement.opening?, h, reduceCtorEq, false_and, false_or]
    constructor
    · rintro ⟨r, hr, hbind⟩
      obtain ⟨rest, hrest, hrs⟩ := bind_eq_ok_iff.1 hbind
      cases hrs
      exact ⟨name, r, rest, rfl, hr, hrest, rfl⟩
    · rintro ⟨name', r, rest, hname, hr, hrest, rfl⟩
      cases hname
      exact ⟨r, hr, bind_eq_ok_iff.2 ⟨rest, hrest, rfl⟩⟩
  next h =>
    constructor
    · exact fun hrs ↦ .inl ⟨Statement.opening?_eq_none_iff.2 h, hrs⟩
    · rintro (⟨-, hrs⟩ | ⟨name, -, -, hname, -⟩)
      · exact hrs
      · exact absurd hname (h name)

/-- **The regions are those of the opening lines**, in order. -/
theorem map_collect (h : collect taken ss = .ok rs) :
    (rs.map fun r ↦ (r.name, r.first)) = ss.filterMap Statement.opening? := by
  induction ss generalizing taken rs with
  | nil =>
    cases h
    rfl
  | cons s ss ih =>
    rcases collect_cons_eq_ok_iff.1 h with ⟨hnone, hss⟩ | ⟨name, r, rest, hname, hr, hss, rfl⟩
    · rw [List.filterMap_cons_none hnone, ih hss]
    · obtain ⟨-, last, -, -, rfl⟩ := ofOpening_eq_ok_iff.1 hr
      rw [List.filterMap_cons_some (Statement.opening?_eq_some_iff.2 ⟨hname, rfl⟩), List.map_cons,
        ih hss]

/-- **No name is opened twice**, nor one that was taken before. -/
theorem nodup_collect (h : collect taken ss = .ok rs) :
    (rs.map name).Nodup ∧ ∀ r ∈ rs, r.name ∉ taken := by
  induction ss generalizing taken rs with
  | nil =>
    cases h
    simp
  | cons s ss ih =>
    rcases collect_cons_eq_ok_iff.1 h with ⟨-, hss⟩ | ⟨name, r, rest, -, hr, hss, rfl⟩
    · exact ih hss
    · obtain ⟨hnew, last, -, -, rfl⟩ := ofOpening_eq_ok_iff.1 hr
      obtain ⟨hnodup, hrest⟩ := ih hss
      constructor
      · rw [List.map_cons, List.nodup_cons]
        refine ⟨fun hmem ↦ ?_, hnodup⟩
        obtain ⟨r, hr, hname⟩ := List.mem_map.1 hmem
        exact hrest r hr (by simp [hname])
      · intro r hr
        rcases List.mem_cons.1 hr with rfl | hr
        · exact hnew
        · exact fun htaken ↦ hrest r hr (by simp [htaken])

/-- Every region was collected from a statement that opens it, a body, and a statement that closes
it. -/
theorem exists_eq_append_of_mem_collect (h : collect taken ss = .ok rs) {r : Region}
    (hr : r ∈ rs) :
    ∃ before s body c after, ss = before ++ s :: (body ++ c :: after) ∧
      s.instruction = .function r.name ∧ s.line = r.first ∧ (∀ b ∈ body, b.IsInner) ∧
      c.line = r.last ∧ r.last ≠ r.first + 1 := by
  induction ss generalizing taken rs with
  | nil =>
    cases h
    cases hr
  | cons s ss ih =>
    have hlater : ∀ {taken rest}, collect taken ss = .ok rest → r ∈ rest →
        ∃ before s' body c after, s :: ss = before ++ s' :: (body ++ c :: after) ∧
          s'.instruction = .function r.name ∧ s'.line = r.first ∧ (∀ b ∈ body, b.IsInner) ∧
          c.line = r.last ∧ r.last ≠ r.first + 1 := by
      intro taken rest hrest hmem
      obtain ⟨before, s', body, c, after, hss, hbody⟩ := ih hrest hmem
      exact ⟨s :: before, s', body, c, after, by rw [hss, List.cons_append], hbody⟩
    rcases collect_cons_eq_ok_iff.1 h with ⟨-, hss⟩ | ⟨name, r', rest, hname, hr', hss, rfl⟩
    · exact hlater hss hr
    · rcases List.mem_cons.1 hr with rfl | hr
      · obtain ⟨-, last, hending, hline, rfl⟩ := ofOpening_eq_ok_iff.1 hr'
        obtain ⟨body, c, after, rfl, hinner, -, hlast⟩ := ending_eq_closed_iff.1 hending
        exact ⟨[], s, body, c, after, rfl, hname, rfl, hinner, hlast, hline⟩
      · exact hlater hss hr

/-- Every region ends on the line of some statement. -/
theorem exists_mem_of_mem_collect (h : collect taken ss = .ok rs) {r : Region} (hr : r ∈ rs) :
    ∃ s ∈ ss, s.line = r.last := by
  obtain ⟨before, s, body, c, after, rfl, -, -, -, hline, -⟩ := exists_eq_append_of_mem_collect h hr
  exact ⟨c, by simp, hline⟩

/-- A statement that opens no function adds nothing. -/
theorem collect_cons_of_opening?_eq_none {s : Statement} (h : s.opening? = none) :
    collect taken (s :: ss) = collect taken ss := by
  rw [collect]
  split
  next name hname => exact absurd hname (Statement.opening?_eq_none_iff.1 h name)
  next => rfl

section Bounds

variable {ss' : List Statement} (h : List.Forall₂ Statement.SameBounds ss ss')

include h

theorem ending_congr : ending ss' = ending ss := by
  induction h with
  | nil => rfl
  | @cons s s' ss ss' hs _ ih =>
    by_cases hclose : s.instruction = .close
    · rw [ending, ending, hclose, hs.close_iff.2 hclose, hs.line_eq]
    · rcases hopen : s.opening? with - | ⟨name, line⟩
      · have hinner : s'.IsInner := ⟨hs.opening?_eq.trans hopen, mt hs.close_iff.1 hclose⟩
        rw [ending_cons_of_isInner hinner, ending_cons_of_isInner ⟨hopen, hclose⟩, ih]
      · have hname := (Statement.opening?_eq_some_iff.1 hopen).1
        have hname' := (Statement.opening?_eq_some_iff.1 (hs.opening?_eq.trans hopen)).1
        rw [ending, ending, hname, hname', hs.line_eq]

/-- **Regions depend on lines, and on what is opened and closed.** -/
theorem collect_congr (taken : List String) : collect taken ss' = collect taken ss := by
  induction h generalizing taken with
  | nil => rfl
  | @cons s s' ss ss' hs hss ih =>
    rcases hopen : s.opening? with - | ⟨name, line⟩
    · rw [collect_cons_of_opening?_eq_none hopen,
        collect_cons_of_opening?_eq_none (hs.opening?_eq.trans hopen), ih]
    · have hname := (Statement.opening?_eq_some_iff.1 hopen).1
      have hname' := (Statement.opening?_eq_some_iff.1 (hs.opening?_eq.trans hopen)).1
      simp only [collect, hname, hname', hs.line_eq, ofOpening, ending_congr hss, ih]

end Bounds

end Region

/-! ### Programs that were read -/

namespace Program

/-- What reading guarantees of a program. -/
structure WellFormed (p : Program) : Prop where
  /-- Lines are places counted from one. -/
  line_eq : ∀ {i s}, p.statement? i = some s → s.line = i + 1
  /-- Operands are in range. -/
  inRange : ∀ {s}, s ∈ p.statements → s.instruction.InRange
  /-- The regions are those of the opening lines. -/
  collected : Region.collect [] p.statements = .ok p.regions

theorem wellFormed_of_ofText {text : String} {p : Program} (h : ofText text = .ok p) :
    p.WellFormed where
  line_eq := line_eq_of_ofText h
  inRange := inRange_of_ofText h
  collected := (ofText_eq_ok_iff.1 h).2.1

/-- The functions that a program makes callable, each with the line that opens it. -/
def table (p : Program) : List (String × Nat) :=
  p.regions.map fun r ↦ (r.name, r.first)

variable {p : Program}

theorem statement?_eq_none_iff {i : Nat} : p.statement? i = none ↔ p.length ≤ i :=
  List.getElem?_eq_none_iff

theorem statement?_eq_some_iff {i : Nat} {s : Statement} :
    p.statement? i = some s ↔ ∃ h : i < p.statements.length, p.statements[i] = s :=
  List.getElem?_eq_some_iff

theorem mem_of_statement? {i : Nat} {s : Statement} (h : p.statement? i = some s) :
    s ∈ p.statements :=
  List.mem_of_getElem? h

theorem lt_length_of_statement? {i : Nat} {s : Statement} (h : p.statement? i = some s) :
    i < p.length :=
  (statement?_eq_some_iff.1 h).1

namespace WellFormed

variable (hp : p.WellFormed)

include hp

/-- A statement stands at the place before its line. -/
theorem statement?_of_mem {s : Statement} (h : s ∈ p.statements) :
    1 ≤ s.line ∧ s.line ≤ p.length ∧ p.statement? (s.line - 1) = some s := by
  obtain ⟨i, hi, rfl⟩ := List.getElem_of_mem h
  have hs : p.statement? i = some p.statements[i] := List.getElem?_eq_getElem hi
  have hline := hp.line_eq hs
  have hlen : p.length = p.statements.length := rfl
  refine ⟨by omega, by omega, ?_⟩
  rwa [hline, Nat.add_sub_cancel]

theorem index_eq {i : Nat} {s : Statement} (h : p.statement? i = some s) : s.index = i := by
  rw [Statement.index, hp.line_eq h, Nat.add_sub_cancel]

theorem table_eq : p.table = p.statements.filterMap Statement.opening? :=
  Region.map_collect hp.collected

theorem nodup_names : (p.table.map Prod.fst).Nodup := by
  have h := (Region.nodup_collect hp.collected).1
  rwa [table, List.map_map]

/-- **Looking a function up finds its opening line.** -/
theorem lookup_table_eq_some_iff {name : String} {line : Nat} :
    p.table.lookup name = some line ↔
      ∃ s ∈ p.statements, s.instruction = .function name ∧ s.line = line := by
  have hmem : (name, line) ∈ p.table ↔
      ∃ s ∈ p.statements, s.instruction = .function name ∧ s.line = line := by
    rw [hp.table_eq, List.mem_filterMap]
    simp only [Statement.opening?_eq_some_iff]
  rw [← hmem, List.lookup_eq_some_iff]
  constructor
  · rintro ⟨before, after, htable, -⟩
    simp [htable]
  · intro h
    obtain ⟨before, after, htable⟩ := List.append_of_mem h
    refine ⟨before, after, htable, fun q hq ↦ ?_⟩
    have hnodup := hp.nodup_names
    rw [htable, List.map_append, List.map_cons, List.nodup_append] at hnodup
    have hne := hnodup.2.2 q.1 (List.mem_map.2 ⟨q, hq, rfl⟩) name (by simp)
    simpa using fun heq ↦ hne heq.symm

/-- **The entry is a place of the program or the place after it.** -/
theorem entry_le_length : p.entry ≤ p.length := by
  unfold entry
  split
  next r h =>
    obtain ⟨s, hs, hline⟩ :=
      Region.exists_mem_of_mem_collect hp.collected (List.mem_of_getLast? h)
    have := (hp.statement?_of_mem hs).2.1
    omega
  next => omega

end WellFormed

end Program

/-! ### The prepared machine -/

namespace Machine

/-- **What preparation gives.** The machine has its cells loaded, its cursor on the first of them,
and stands at the entry with nothing printed. -/
theorem prepare_eq_ok_iff {p : Program} {setup : Setup} {m : Machine setup.cells} :
    prepare p setup = .ok m ↔
      0 < setup.cells ∧ setup.inputs.length ≤ setup.cells ∧
        m.memory = load setup.cells setup.inputs ∧ m.cursor.val = 0 ∧ m.position = p.entry ∧
        m.functions = p.table ∧ m.printed = #[] := by
  rw [prepare, bind_eq_ok_iff]
  constructor
  · rintro ⟨b, hb, hm⟩
    cases hm
    unfold blank at hb
    split at hb
    · cases hb
    · split at hb
      · cases hb
      · cases hb
        exact ⟨by omega, by omega, rfl, rfl, rfl, rfl, rfl⟩
  · rintro ⟨hcells, hinputs, hmemory, hcursor, hposition, hfunctions, hprinted⟩
    have hblank : blank setup = .ok
        { memory := load setup.cells setup.inputs
          cursor := ⟨0, hcells⟩
          position := 0
          functions := []
          printed := #[] } := by
      unfold blank
      rw [dif_neg (by omega), if_neg (by omega)]
    refine ⟨_, hblank, ?_⟩
    obtain ⟨memory, cursor, position, functions, printed⟩ := m
    simp only at hmemory hcursor hposition hfunctions hprinted
    subst hmemory hposition hfunctions hprinted
    obtain rfl : cursor = ⟨0, hcells⟩ := Fin.ext hcursor
    rfl

end Machine

end CursorMachine
