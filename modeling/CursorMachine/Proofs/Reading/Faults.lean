import CursorMachine.Proofs.Reading.Grammar
import CursorMachine.Proofs.Reading.Parameters
import CursorMachine.Proofs.Reading.Rows

/-!
# The first fault of a text

A text that is no program may have many faults, and one of them is reported. This module says which:
that of the first logical line that cannot be read; else that of the first function that is not
opened and closed as it must be; else that there is no `exit` (`Program.ofText_eq_error_iff`).

`FirstFault` is the notion both passes share: the fault at the first place that has one. It unfolds
along a list, the first place apart (`firstFault_iff`), which is how `readStatements` and
`Region.collect` go. What is wrong with one line is the business of `Keyword.Refuses`; what is wrong
with one function is `Region.Fault`, said of the statements before and after the one that opens it.
-/

namespace CursorMachine

/-! ### First faults -/

/-- The fault at the first place that has one. -/
def FirstFault (fault : Nat → Error → Prop) (e : Error) : Prop :=
  ∃ i, fault i e ∧ ∀ j < i, ∀ e', ¬fault j e'

/-- The first fault is at the first place, or there is none and it is the first of the others. -/
theorem firstFault_iff {fault : Nat → Error → Prop} {e : Error} :
    FirstFault fault e ↔
      fault 0 e ∨ (∀ e', ¬fault 0 e') ∧ FirstFault (fun i ↦ fault (i + 1)) e := by
  constructor
  · rintro ⟨i, hi, hbefore⟩
    cases i with
    | zero => exact .inl hi
    | succ i =>
      exact .inr ⟨hbefore 0 (by omega), i, hi, fun j hj ↦ hbefore (j + 1) (by omega)⟩
  · rintro (hzero | ⟨hzero, i, hi, hbefore⟩)
    · exact ⟨0, hzero, fun j hj ↦ absurd hj j.not_lt_zero⟩
    · refine ⟨i + 1, hi, fun j hj ↦ ?_⟩
      cases j with
      | zero => exact hzero
      | succ j => exact hbefore j (by omega)

theorem not_firstFault_iff {fault : Nat → Error → Prop} :
    (∀ e, ¬FirstFault fault e) ↔ ∀ i e, ¬fault i e := by
  refine ⟨fun h i ↦ ?_, fun h e ⟨i, hi, _⟩ ↦ h i e hi⟩
  induction i using Nat.strong_induction_on with
  | _ i ih => exact fun e hi ↦ h e ⟨i, hi, ih⟩

/-- Of two computations the second one is refused only when the first one is not. -/
theorem bind_bind_eq_error_iff {ε α β γ : Type} {x : Except ε α} {y : Except ε β} {f : α → β → γ}
    {e : ε} :
    (do
      let a ← x
      return f a (← y)) = .error e ↔
      x = .error e ∨ (∀ e', x ≠ .error e') ∧ y = .error e := by
  cases x with
  | error => simp [bind, Except.bind]
  | ok => cases y <;> simp [bind, Except.bind, pure, Except.pure]

/-! ### Lines -/

namespace Statement

/-- The tokens of a line are refused with an error: they start with no keyword, or the keyword that
they start with refuses the others. -/
inductive Refuses (line : Nat) : List Token → Error → Prop where
  | unknown {head : Token} (params : List Token) (h : ∀ k, head.kind ≠ .keyword k) :
      Refuses line (head :: params) (.unknownInstruction line head.content)
  | keyword {head : Token} {params : List Token} {k : Keyword} {e : Error}
      (hk : head.kind = .keyword k) (h : k.Refuses line (params.map Token.content) e) :
      Refuses line (head :: params) e

theorem ofTokens_eq_error_iff {head : Token} {params : List Token} {e : Error} :
    Statement.ofTokens head params = .error e ↔ Refuses head.line (head :: params) e := by
  unfold Statement.ofTokens
  split
  next hnone =>
    have hunknown : ∀ k, head.kind ≠ .keyword k := by
      rintro k hk
      rw [hk] at hnone
      cases hnone
    constructor
    · rintro ⟨⟩
      exact .unknown params hunknown
    · intro h
      cases h with
      | unknown => rfl
      | keyword hk => exact absurd hk (hunknown _)
  next k hsome =>
    have hk : head.kind = .keyword k := by
      cases hkind : head.kind <;> simp_all [Kind.keyword?]
    rw [bind_eq_error_iff, Instruction.decode_eq_error_iff_refuses]
    constructor
    · rintro (h | ⟨i, -, hi⟩)
      · exact .keyword hk h
      · cases hi
    · intro h
      cases h with
      | unknown _ hunknown => exact absurd hk (hunknown k)
      | keyword hk' h =>
        obtain rfl : k = _ := Kind.keyword.inj (hk.symm.trans hk')
        exact .inl h

end Statement

namespace Program

variable {e : Error}

/-- Rows are read one after the other. -/
theorem readStatements_cons (row : List Token) (rows : List (List Token)) :
    readStatements (row :: rows) = do
      let ss ← readStatements [row]
      return ss ++ (← readStatements rows) := by
  rcases row with - | ⟨head, params⟩
  · simp only [readStatements]
    rcases readStatements rows with e | ss <;> rfl
  · simp only [readStatements]
    rcases Statement.ofTokens head params with e | s
    · rfl
    · rcases readStatements rows with e | ss <;> rfl

/-- **Rows are refused for the first of them that is.** -/
theorem readStatements_eq_error_iff {rows : List (List Token)} :
    readStatements rows = .error e ↔
      FirstFault (fun i e ↦ ∃ row, rows[i]? = some row ∧ readStatements [row] = .error e) e := by
  induction rows with
  | nil =>
    refine iff_of_false nofun ?_
    rintro ⟨i, ⟨row, hrow, -⟩, -⟩
    cases hrow
  | cons row rows ih =>
    rw [firstFault_iff, readStatements_cons, bind_bind_eq_error_iff, ih]
    simp only [List.getElem?_cons_zero, Option.some.injEq, exists_eq_left',
      List.getElem?_cons_succ, ne_eq]

/-- The logical line at a place is refused with an error when it is read on its own, under its
number. -/
def LineFault (text : String) (i : Nat) (e : Error) : Prop :=
  ∃ ws, (logicalLines text)[i]? = some ws ∧ readStatements [Token.ofWords (i + 1) ws] = .error e

/-- **A line is refused for its tokens**, under its number. -/
theorem readStatements_ofWords_eq_error_iff {line : Nat} {ws : List String} :
    readStatements [Token.ofWords line ws] = .error e ↔
      Statement.Refuses line (Token.ofWords line ws) e := by
  rcases hrow : Token.ofWords line ws with - | ⟨head, params⟩
  · exact iff_of_false nofun nofun
  · have hmem : head ∈ Token.ofWords line ws := by
      rw [hrow]
      exact List.mem_cons_self
    have hline : head.line = line := Token.line_of_mem_ofWords hmem
    rw [readStatements, bind_eq_error_iff, Statement.ofTokens_eq_error_iff, hline]
    refine ⟨fun h ↦ h.resolve_right ?_, .inl⟩
    rintro ⟨s, -, ⟨⟩⟩

/-- What is wrong with a line depends on nothing but the line. -/
theorem lineFault_congr {text text' : String} {i n : Nat}
    (h : (logicalLines text').take n = (logicalLines text).take n) (hi : i < n) :
    LineFault text' i e ↔ LineFault text i e := by
  have hlines : (logicalLines text')[i]? = (logicalLines text)[i]? := by
    rw [← List.getElem?_take_of_lt hi, h, List.getElem?_take_of_lt hi]
  rw [LineFault, LineFault, hlines]

theorem readStatements_rows_eq_error_iff {text : String} :
    readStatements (Token.rows text) = .error e ↔ FirstFault (LineFault text) e := by
  have hfault : LineFault text =
      fun i e ↦ ∃ row, (Token.rows text)[i]? = some row ∧ readStatements [row] = .error e := by
    funext i e
    simp only [LineFault, Token.rows, List.getElem?_mapIdx, Option.map_eq_some_iff, eq_iff_iff]
    constructor
    · rintro ⟨ws, hws, he⟩
      exact ⟨_, ⟨ws, hws, rfl⟩, he⟩
    · rintro ⟨row, ⟨ws, hws, rfl⟩, he⟩
      exact ⟨ws, hws, he⟩
  rw [readStatements_eq_error_iff, hfault]

end Program

/-! ### Functions -/

namespace Region

variable {taken : List String} {ss : List Statement} {e : Error}

/-- What is wrong with the function that a statement opens, when names are taken before and these
statements follow. The faults exclude each other, in this order. -/
inductive Fault (IsTaken : String → Prop) (s : Statement) (name : String) (after : List Statement) :
    Error → Prop where
  /-- The name is taken. -/
  | duplicate (h : IsTaken name) : Fault IsTaken s name after (.duplicateFunction s.line name)
  /-- Another function opens before anything closes. -/
  | nested (hnew : ¬IsTaken name) {body rest : List Statement} {o : Statement} {inner : String}
      (hafter : after = body ++ o :: rest) (hbody : ∀ b ∈ body, b.IsInner)
      (ho : o.instruction = .function inner) :
      Fault IsTaken s name after (.nestedFunction s.line name o.line inner)
  /-- Nothing closes, nor opens another function. -/
  | unterminated (hnew : ¬IsTaken name) (h : ∀ b ∈ after, b.IsInner) :
      Fault IsTaken s name after (.unterminatedFunction s.line name)
  /-- The next statement closes. -/
  | empty (hnew : ¬IsTaken name) {c : Statement} {rest : List Statement}
      (hafter : after = c :: rest) (hc : c.instruction = .close) :
      Fault IsTaken s name after (.emptyFunction s.line name)

theorem ending_append_of_isInner {body rest : List Statement} (h : ∀ b ∈ body, b.IsInner) :
    ending (body ++ rest) = ending rest := by
  induction body with
  | nil => rfl
  | cons b body ih =>
    obtain ⟨hb, hbody⟩ := List.forall_mem_cons.1 h
    rw [List.cons_append, ending_cons_of_isInner hb, ih hbody]

/-- A body is never closed, or ends at the first statement that cannot be part of it. -/
theorem body_cases (ss : List Statement) :
    (∀ b ∈ ss, b.IsInner) ∨
      ∃ body o rest, ss = body ++ o :: rest ∧ (∀ b ∈ body, b.IsInner) ∧
        (o.instruction = .close ∨ ∃ inner, o.instruction = .function inner) := by
  induction ss with
  | nil => exact .inl (List.forall_mem_nil _)
  | cons s ss ih =>
    by_cases hclose : s.instruction = .close
    · exact .inr ⟨[], s, ss, rfl, List.forall_mem_nil _, .inl hclose⟩
    · rcases hopen : s.opening? with - | ⟨inner, line⟩
      · have hs : s.IsInner := ⟨hopen, hclose⟩
        rcases ih with hall | ⟨body, o, rest, rfl, hbody, ho⟩
        · exact .inl (List.forall_mem_cons.2 ⟨hs, hall⟩)
        · exact .inr ⟨s :: body, o, rest, rfl, List.forall_mem_cons.2 ⟨hs, hbody⟩, ho⟩
      · have hinner := (Statement.opening?_eq_some_iff.1 hopen).1
        exact .inr ⟨[], s, ss, rfl, List.forall_mem_nil _, .inr ⟨inner, hinner⟩⟩

theorem ending_of_forall_isInner (h : ∀ b ∈ ss, b.IsInner) : ending ss = .missing := by
  have hending : ending (ss ++ []) = .missing := ending_append_of_isInner h
  rwa [List.append_nil] at hending

theorem ending_append_of_close {body rest : List Statement} {c : Statement}
    (h : ∀ b ∈ body, b.IsInner) (hc : c.instruction = .close) :
    ending (body ++ c :: rest) = .closed c.line := by
  rw [ending_append_of_isInner h, ending, hc]

theorem ending_append_of_function {body rest : List Statement} {o : Statement} {inner : String}
    (h : ∀ b ∈ body, b.IsInner) (ho : o.instruction = .function inner) :
    ending (body ++ o :: rest) = .reopened o.line inner := by
  rw [ending_append_of_isInner h, ending, ho]

/-- **An opening is refused for what is wrong with its function**, when the statements stand on
consecutive lines. -/
theorem ofOpening_eq_error_iff {s : Statement} {name : String} {after : List Statement}
    (hlines : Consecutive (s :: after)) :
    ofOpening taken s.line name after = .error e ↔ Fault (· ∈ taken) s name after e := by
  unfold ofOpening
  constructor
  · intro h
    by_cases htaken : name ∈ taken
    · rw [if_pos (List.contains_iff_mem.2 htaken)] at h
      cases h
      exact .duplicate htaken
    · rw [if_neg (mt List.contains_iff_mem.1 htaken)] at h
      rcases body_cases after with hinner | ⟨body, o, rest, rfl, hbody, hclose | ⟨inner, hopen⟩⟩
      · rw [ending_of_forall_isInner hinner] at h
        cases h
        exact .unterminated htaken hinner
      · rw [ending_append_of_close hbody hclose] at h
        dsimp only at h
        split at h
        next hline =>
          obtain rfl := hlines.line_eq_add_one_iff.1 hline
          cases h
          exact .empty htaken rfl hclose
        next => cases h
      · rw [ending_append_of_function hbody hopen] at h
        cases h
        exact .nested htaken rfl hbody hopen
  · intro h
    cases h with
    | duplicate htaken => rw [if_pos (List.contains_iff_mem.2 htaken)]
    | nested hnew hafter hbody ho =>
      rw [if_neg (mt List.contains_iff_mem.1 hnew), hafter, ending_append_of_function hbody ho]
    | unterminated hnew hinner =>
      rw [if_neg (mt List.contains_iff_mem.1 hnew), ending_of_forall_isInner hinner]
    | @empty hnew c rest hafter hc =>
      subst hafter
      have hbody : Consecutive (s :: ([] ++ c :: rest)) := hlines
      have hline : c.line = s.line + 1 := hbody.line_eq_add_one_iff.2 rfl
      have hending : ending (c :: rest) = .closed c.line :=
        ending_append_of_close (List.forall_mem_nil _) hc
      rw [if_neg (mt List.contains_iff_mem.1 hnew), hending]
      exact if_pos hline

/-- The statement at a place opens a function that something is wrong with, when names are taken
before. -/
def FaultAt (taken : List String) (ss : List Statement) (i : Nat) (e : Error) : Prop :=
  ∃ s name, ss[i]? = some s ∧ s.instruction = .function name ∧
    Fault (fun n ↦ n ∈ taken ∨ ∃ t ∈ ss.take i, t.instruction = .function n) s name
      (ss.drop (i + 1)) e

section Cons

variable {s : Statement}

theorem faultAt_zero : FaultAt taken (s :: ss) 0 e ↔
    ∃ name, s.instruction = .function name ∧ Fault (· ∈ taken) s name ss e := by
  simp [FaultAt]

/-- A statement that opens no function is at no fault, and none of the others depends on it. -/
theorem faultAt_succ_of_none (hs : s.opening? = none) :
    (fun i ↦ FaultAt taken (s :: ss) (i + 1)) = FaultAt taken ss := by
  have hne := Statement.opening?_eq_none_iff.1 hs
  funext i e
  simp [FaultAt, hne]

/-- A statement that opens a function takes its name. -/
theorem faultAt_succ_of_function {name : String} (hs : s.instruction = .function name) :
    (fun i ↦ FaultAt taken (s :: ss) (i + 1)) = FaultAt (name :: taken) ss := by
  funext i e
  have hnames : (fun n ↦ n ∈ taken ∨ ∃ t ∈ (s :: ss).take (i + 1), t.instruction = .function n) =
      fun n ↦ n ∈ name :: taken ∨ ∃ t ∈ ss.take i, t.instruction = .function n := by
    funext n
    rw [List.take_succ_cons, List.exists_mem_cons_iff, hs, Instruction.function.injEq,
      List.mem_cons, eq_comm (a := n), or_left_comm, or_assoc]
  rw [FaultAt, FaultAt, hnames, List.getElem?_cons_succ, List.drop_succ_cons]

end Cons

/-- **Collecting is refused for the first function that something is wrong with.** -/
theorem collect_eq_error_iff (hlines : Consecutive ss) :
    collect taken ss = .error e ↔ FirstFault (FaultAt taken ss) e := by
  induction ss generalizing taken with
  | nil =>
    refine iff_of_false nofun ?_
    rintro ⟨i, ⟨s, name, hs, -⟩, -⟩
    cases hs
  | cons s ss ih =>
    rw [firstFault_iff]
    rcases hopen : s.opening? with - | ⟨name, line⟩
    · have hzero : ∀ e', ¬FaultAt taken (s :: ss) 0 e' := by
        intro e' hfault
        obtain ⟨name, hname, -⟩ := faultAt_zero.1 hfault
        exact Statement.opening?_eq_none_iff.1 hopen name hname
      rw [collect_cons_of_opening?_eq_none hopen, faultAt_succ_of_none hopen, ih hlines.tail]
      exact ⟨fun h ↦ .inr ⟨hzero, h⟩, fun h ↦ (h.resolve_left (hzero e)).2⟩
    · have hname := (Statement.opening?_eq_some_iff.1 hopen).1
      have hzero : ∀ e', FaultAt taken (s :: ss) 0 e' ↔
          ofOpening taken s.line name ss = .error e' := by
        intro e'
        rw [faultAt_zero, ofOpening_eq_error_iff hlines]
        simp [hname]
      have hcollect : collect taken (s :: ss) = do
          let region ← ofOpening taken s.line name ss
          return region :: (← collect (name :: taken) ss) := by
        rw [collect, hname]
      rw [hcollect, faultAt_succ_of_function hname, ← ih hlines.tail, bind_bind_eq_error_iff]
      simp only [hzero, ne_eq]

end Region

/-! ### Texts -/

namespace Program

/-- **Statements are refused for their functions**, or for want of an `exit`. -/
theorem ofStatements_eq_error_iff {ss : List Statement} {e : Error} (hlines : Consecutive ss) :
    ofStatements ss = .error e ↔
      FirstFault (Region.FaultAt [] ss) e ∨
        (∀ i e', ¬Region.FaultAt [] ss i e') ∧ (∀ s ∈ ss, s.instruction ≠ .exit) ∧
          e = .missingExit := by
  have hany : ss.any (·.instruction == .exit) = true ↔ ¬∀ s ∈ ss, s.instruction ≠ .exit := by
    simp only [List.any_eq_true, beq_iff_eq, not_forall, not_not, exists_prop]
  rw [ofStatements, bind_eq_error_iff, Region.collect_eq_error_iff hlines, ← not_firstFault_iff]
  simp only [← Region.collect_eq_error_iff hlines]
  refine or_congr_right ?_
  rcases Region.collect [] ss with e' | rs
  · exact iff_of_false nofun fun h ↦ h.1 e' rfl
  · simp only [Except.ok.injEq, exists_eq_left', reduceCtorEq, not_false_eq_true, implies_true,
      true_and]
    split
    next hexit => exact iff_of_false nofun fun h ↦ hany.1 hexit h.1
    next hexit =>
      rw [Except.error.injEq, eq_comm]
      exact (and_iff_right (not_not.1 (mt hany.2 hexit))).symm

/-- **The fault that is reported.** A text is refused for the first of its logical lines that is
refused when it is read on its own; if all lines can be read, for the first function that something
is wrong with; and if nothing is wrong with any, for want of an `exit`. A line is refused under its
own number and for its own tokens, and every other text with the same lines up to this one is
refused with the same error. -/
theorem ofText_eq_error_iff (text : String) :
    (∀ e, ofText text = .error e ↔
      FirstFault (LineFault text) e ∨
        ∃ ss, readStatements (Token.rows text) = .ok ss ∧
          (FirstFault (Region.FaultAt [] ss) e ∨
            (∀ i e', ¬Region.FaultAt [] ss i e') ∧ (∀ s ∈ ss, s.instruction ≠ .exit) ∧
              e = .missingExit)) ∧
    ∀ i e, LineFault text i e → (∀ j < i, ∀ e', ¬LineFault text j e') →
      (∃ ws, (logicalLines text)[i]? = some ws ∧
        Statement.Refuses (i + 1) (Token.ofWords (i + 1) ws) e) ∧
      ∀ text', (logicalLines text').take (i + 1) = (logicalLines text).take (i + 1) →
        ofText text' = .error e := by
  have hfault (text : String) (e : Error) : ofText text = .error e ↔
      FirstFault (LineFault text) e ∨
        ∃ ss, readStatements (Token.rows text) = .ok ss ∧
          (FirstFault (Region.FaultAt [] ss) e ∨
            (∀ i e', ¬Region.FaultAt [] ss i e') ∧ (∀ s ∈ ss, s.instruction ≠ .exit) ∧
              e = .missingExit) := by
    rw [ofText, ofRows, bind_eq_error_iff, readStatements_rows_eq_error_iff]
    refine or_congr_right (exists_congr fun ss ↦ and_congr_right fun hss ↦ ?_)
    exact ofStatements_eq_error_iff
      (consecutive_of_reads ((readStatements_eq_ok_iff fun _ ↦ Token.ne_nil_of_mem_rows).1 hss))
  refine ⟨hfault text, fun i e he hbefore ↦ ⟨?_, fun text' hlines ↦ ?_⟩⟩
  · obtain ⟨ws, hws, he⟩ := he
    exact ⟨ws, hws, readStatements_ofWords_eq_error_iff.1 he⟩
  · refine (hfault text' e).2 (.inl ⟨i, (lineFault_congr hlines (by omega)).2 he, ?_⟩)
    exact fun j hj e' ↦ mt (lineFault_congr hlines (by omega)).1 (hbefore j hj e')

/-- The second line cannot be read, a name is taken twice and there is no `exit`: the line is to
blame, in every text that begins so. -/
theorem ofText_eq_error_iff_unknown :
    ofText "print\nwalrus\nmake function f\nmake function f\nclose" =
      .error (.unknownInstruction 2 "walrus") ∧
    ∀ text', (logicalLines text').take 2 = [["print"], ["walrus"]] →
      ofText text' = .error (.unknownInstruction 2 "walrus") := by
  have hlines : logicalLines "print\nwalrus\nmake function f\nmake function f\nclose" =
      [["print"], ["walrus"], ["make", "function", "f"], ["make", "function", "f"], ["close"]] := by
    rfl
  have hline : LineFault "print\nwalrus\nmake function f\nmake function f\nclose" 1
      (.unknownInstruction 2 "walrus") := ⟨["walrus"], by rw [hlines]; rfl, by rfl⟩
  have hbefore : ∀ j < 1, ∀ e,
      ¬LineFault "print\nwalrus\nmake function f\nmake function f\nclose" j e := by
    rintro _ (_ | ⟨⟨⟩⟩) e ⟨ws, hws, he⟩
    rw [hlines] at hws
    cases hws
    cases he
  have hsecond := ((ofText_eq_error_iff _).2 1 _ hline hbefore).2
  rw [hlines] at hsecond
  exact ⟨hsecond _ (by rw [hlines]), hsecond⟩

/-- All lines can be read. The second function takes the name of the first one and is never closed:
the name is to blame, and not the missing `exit`. -/
example : ofText "make function f\nprint\nclose\nmake function f\nprint" =
    .error (.duplicateFunction 4 "f") := by rfl

end Program

end CursorMachine
