import CursorMachine.Proofs.Lowering.Checks
import CursorMachine.Proofs.Lowering.CursorMoves

/-!
# One step of a run and the code of its line

An execution *stands at* a machine (`Execution.StandsAt`) when the code from the label of the
machine's line is ahead, the processor mirrors the machine, and the same numbers were put out. One
step of the machine then takes the execution to the next machine, or out of the program with the
status that belongs to the end of the run (`Image.Implements.follows_step`).

`Image.Implements` lists what this rests on: the image holds the code of a program that was read and
that lowering accepts, and there is room for its frame.
-/

namespace CursorMachine.Arm

/-- The execution stands where the machine does. -/
structure Execution.StandsAt {size : Nat} (i : Image) (base : UInt32) (m : Machine size)
    (e : Execution) : Prop where
  ahead_eq : seek (Label.node (m.position + 1)).text i.lines = some e.ahead
  mirrors : e.processor.Mirrors base m
  output_eq : e.output = m.printed.toList.map Event.number

namespace Image

/-- The image holds the code of a program that lowering accepts, with room for its frame. -/
structure Implements (i : Image) (p : Program) (layout : Layout) (options : Options)
    (inputs : List Cell) (size : Nat) (base : UInt32) : Prop extends
    i.Holds p layout options inputs where
  size_eq : layout.size = size
  callable_eq : layout.callable = p.table.map Prod.fst
  checked : ∀ s ∈ p.statements, s.check layout p.length = .ok ()
  length_le : (p.length : Int) + 2 ≤ farthest
  room : Room size base
  print : PrintContract i.print

/-- An execution goes on to where a machine stands. -/
def LeadsTo {size : Nat} (i : Image) (base : UInt32) (e : Execution) (m : Machine size) : Prop :=
  ∃ e', i.Reaches e e' ∧ e'.StandsAt i base m

namespace Implements

variable {i : Image} {p : Program} {layout : Layout} {options : Options} {inputs : List Cell}
  {size : Nat} {base : UInt32} (hi : i.Implements p layout options inputs size base)

/-- A place that does not go beyond the last line is reported as it is. -/
theorem eq_of_saturate_eq {n : Int} {k : Nat} (h : saturate n = k) (hk : (k : Int) < farthest) :
    n = k := by
  unfold saturate at h
  omega

include hi

section Instructions

variable {m m' : Machine size} {s : Statement} {q : Processor} {output : List Event}

/-- Code that falls off its line leads to the machine on the next line. -/
theorem leadsTo_of_reaches_codeAfter {code : List Line} {q' : Processor} {output' : List Event}
    {place k : Nat} (hplace : place < p.length)
    (h : i.Reaches ⟨code ++ codeAfter p layout options inputs place, q, output⟩
      ⟨codeAfter p layout options inputs place, q', output'⟩)
    (hq' : q'.Mirrors base m) (houtput : output' = m.printed.toList.map Event.number)
    (hk : k = place + 1) :
    i.LeadsTo base ⟨code ++ codeAfter p layout options inputs place, q, output⟩
      { m with position := k } := by
  subst hk
  exact ⟨_, h.trans (hi.reaches_codeAfter hplace), hi.seek_node hplace,
    ⟨hq'.toFrame, hq'.cursor_eq⟩, houtput⟩

/-- A branch to a line leads to the machine on that line. -/
theorem leadsTo_of_branch (rest : List Line) {c : Condition} {k : Nat}
    (hc : c.holds q.flags = true) (hq : q.Mirrors base m)
    (houtput : output = m.printed.toList.map Event.number) (hk : k ≤ p.length) :
    i.LeadsTo base ⟨.operation (.branch c (.node (k + 1))) :: rest, q, output⟩
      { m with position := k } := by
  have hseek := hi.seek_node hk
  have hstep : i.step ⟨.operation (.branch c (.node (k + 1))) :: rest, q, output⟩ =
      .on ⟨codeAt p layout options inputs k, q, output⟩ :=
    (step_branch_of_holds hc).trans (step_jump hseek)
  exact ⟨_, reaches_of_step hstep, hseek, ⟨hq.toFrame, hq.cursor_eq⟩, houtput⟩

/-- An attempt that lands has had an effect, and stands where the effect says to go on. -/
theorem exists_effect_of_attempt (h : m.attempt p.length s = ⟨m', none⟩) :
    ∃ m₁ next, ∃ k : Nat, m.effect s = .ok (m₁, next) ∧ next = k ∧ k ≤ p.length ∧
      m' = { m₁ with position := k } := by
  have hlength := hi.length_le
  rcases m.attempt_cases p.length s with
    ⟨e, -, hattempt⟩ | ⟨m₁, next, e, -, -, hattempt⟩ | ⟨m₁, next, line, heffect, hland, hattempt⟩
  · rw [h] at hattempt
    cases hattempt
  · rw [h] at hattempt
    cases hattempt
  · rw [h] at hattempt
    obtain ⟨htarget, hpos, hle⟩ := checkTarget_eq_ok_iff.1 hland
    have hnext : next + 1 = line := eq_of_saturate_eq htarget (by omega)
    exact ⟨m₁, next, line - 1, heffect, by omega, by omega, (Attempt.mk.inj hattempt).1⟩

/-- The code of a jump leads where the jump does. -/
theorem leadsTo_jumpBy {d : Direction} {n line k : Nat} (hline : 1 ≤ line)
    (hk : d.travel ((line - 1 : Nat) : Int) n = k) (hle : k ≤ p.length) (hq : q.Mirrors base m)
    (houtput : output = m.printed.toList.map Event.number) (rest : List Line) :
    i.LeadsTo base ⟨lowerInstruction size line (.jumpBy d n) ++ rest, q, output⟩
      { m with position := k } := by
  have hlength := hi.length_le
  have hcode : lowerInstruction size line (.jumpBy d n) = [Arm.jump (.node (k + 1))] := by
    cases d with
    | forward =>
      simp only [Direction.travel, saturate, farthest] at hk hlength
      have heq : line + n = k + 1 := by omega
      simp only [lowerInstruction, heq]
    | backward =>
      simp only [Direction.travel] at hk
      have heq : line - n = k + 1 := by omega
      simp only [lowerInstruction, heq]
  rw [hcode]
  exact hi.leadsTo_of_branch _ (c := .always) rfl hq houtput hle

/-- The code of a call leads to the line after the one that opens the function. -/
theorem leadsTo_call {name : String} {first : Nat} (hfunctions : m.functions = p.table)
    (hfirst : m.opening? name = some first) (hle : first ≤ p.length) (hq : q.Mirrors base m)
    (houtput : output = m.printed.toList.map Event.number) (rest : List Line) (line : Nat) :
    i.LeadsTo base ⟨lowerInstruction size line (.call name) ++ rest, q, output⟩
      { m with position := first } := by
  rw [Machine.opening?, hfunctions, hi.wellFormed.lookup_table_eq_some_iff] at hfirst
  obtain ⟨t, ht, hname, rfl⟩ := hfirst
  obtain ⟨hpos, -, hopening⟩ := hi.wellFormed.statement?_of_mem ht
  have hline : t.line = t.line - 1 + 1 := by omega
  refine ⟨⟨codeAt p layout options inputs t.line, q, output⟩, ?_, hi.seek_node hle,
    ⟨hq.toFrame, hq.cursor_eq⟩, houtput⟩
  rw [hline]
  exact hi.reaches_jump_function hopening hname

/-- The code of a comparison leads to the place that the comparison decides for. -/
theorem leadsTo_compare {r : Relation} {a b line k : Nat} (ha : a < size) (hb : b < size)
    (hk : (if r.holds m.memory[a] m.memory[b] then line else line + 1) = k) (hle : k ≤ p.length)
    (hq : q.Mirrors base m) (houtput : output = m.printed.toList.map Event.number)
    (rest : List Line) :
    i.LeadsTo base ⟨lowerInstruction size line (.compare r a b) ++ rest, q, output⟩
      { m with position := k } := by
  obtain ⟨q', c, rest', hq', hc, hreaches⟩ := reaches_compare hq r ha hb
  have hline : (if r.holds m.memory[a] m.memory[b] then line + 1 else line + 2) = k + 1 := by
    rw [← hk]
    split <;> rfl
  rw [hline] at hreaches
  obtain ⟨e', he', hstands⟩ := hi.leadsTo_of_branch rest' hc hq' houtput hle
  exact ⟨e', hreaches.trans he', hstands⟩

/-- **What an instruction does, its code does.** -/
theorem leadsTo_of_attempt (hs : p.statement? m.position = some s)
    (hfunctions : m.functions = p.table) (hexit : s.instruction ≠ .exit) (hq : q.Mirrors base m)
    (houtput : output = m.printed.toList.map Event.number)
    (h : m.attempt p.length s = ⟨m', none⟩) :
    i.LeadsTo base ⟨lowerInstruction size s.line s.instruction ++
      codeAfter p layout options inputs m.position, q, output⟩ m' := by
  have hlt := Program.lt_length_of_statement? hs
  have hline := hi.wellFormed.line_eq hs
  have hindex := hi.wellFormed.index_eq hs
  obtain ⟨m₁, next, k, heffect, hnext, hle, rfl⟩ := hi.exists_effect_of_attempt h
  unfold Machine.effect at heffect
  rcases hi' : s.instruction with
    ⟨d, n⟩ | a | a | ⟨d, n⟩ | target | - | name | - | name | - | ⟨r, a, b⟩ | v | ⟨u, v⟩ <;>
    simp only [hi'] at heffect hexit ⊢
  case moveBy =>
    obtain ⟨c, hc, hok⟩ := bind_eq_ok_iff.1 heffect
    cases hok
    obtain ⟨q', hreaches, hq'⟩ :=
      reaches_moveBy hi.toHolds hi.room hq d (checkAddress_eq_ok_iff.1 hc)
    exact hi.leadsTo_of_reaches_codeAfter hlt hreaches hq' houtput (by omega)
  case moveTo =>
    obtain ⟨c, hc, hok⟩ := bind_eq_ok_iff.1 heffect
    cases hok
    obtain rfl := Int.ofNat.inj (checkAddress_eq_ok_iff.1 hc)
    obtain ⟨q', hreaches, hq'⟩ := reaches_moveTo hq c
    exact hi.leadsTo_of_reaches_codeAfter hlt hreaches hq' houtput (by omega)
  case copyTo =>
    obtain ⟨c, hc, hok⟩ := bind_eq_ok_iff.1 heffect
    cases hok
    obtain rfl := Int.ofNat.inj (checkAddress_eq_ok_iff.1 hc)
    obtain ⟨q', hreaches, hq'⟩ := reaches_copyTo hq hi.room c
    exact hi.leadsTo_of_reaches_codeAfter hlt hreaches hq' houtput (by omega)
  case jumpBy =>
    cases heffect
    exact hi.leadsTo_jumpBy (by omega) hnext hle hq houtput _
  case jumpTo =>
    cases heffect
    obtain rfl : target = k + 1 := by omega
    exact hi.leadsTo_of_branch _ (c := .always) rfl hq houtput hle
  case print =>
    cases heffect
    obtain ⟨q', hreaches, hq'⟩ := reaches_print hq hi.room hi.print
    refine hi.leadsTo_of_reaches_codeAfter hlt hreaches hq' ?_ (by omega)
    rw [houtput]
    simp
  case function =>
    cases heffect
    have hreaches : i.Reaches ⟨[.label (.function name)] ++
        codeAfter p layout options inputs m.position, q, output⟩
        ⟨codeAfter p layout options inputs m.position, q, output⟩ := reaches_of_step rfl
    exact hi.leadsTo_of_reaches_codeAfter hlt hreaches hq houtput (by omega)
  case close =>
    cases heffect
    have hreaches : i.Reaches ⟨[] ++ codeAfter p layout options inputs m.position, q, output⟩
        ⟨codeAfter p layout options inputs m.position, q, output⟩ := .refl
    exact hi.leadsTo_of_reaches_codeAfter hlt hreaches hq houtput (by omega)
  case call =>
    split at heffect
    · next first hfirst =>
      cases heffect
      obtain rfl := Int.ofNat.inj hnext
      exact hi.leadsTo_call hfunctions hfirst hle hq houtput _ _
    · cases heffect
  case exit => exact absurd rfl hexit
  case compare =>
    obtain ⟨c, hc, hbind⟩ := bind_eq_ok_iff.1 heffect
    obtain ⟨c', hc', hok⟩ := bind_eq_ok_iff.1 hbind
    cases hok
    obtain rfl := Int.ofNat.inj (checkAddress_eq_ok_iff.1 hc)
    obtain rfl := Int.ofNat.inj (checkAddress_eq_ok_iff.1 hc')
    refine hi.leadsTo_compare c.isLt c'.isLt ?_ hle hq houtput _
    rw [Fin.getElem_fin, Fin.getElem_fin] at hnext
    split at hnext
    next hholds =>
      rw [if_pos hholds]
      omega
    next hholds =>
      rw [if_neg hholds]
      omega
  case set =>
    cases heffect
    obtain ⟨q', hreaches, hq'⟩ := reaches_set hq hi.room v
    exact hi.leadsTo_of_reaches_codeAfter hlt hreaches hq' houtput (by omega)
  case update =>
    cases heffect
    obtain ⟨q', hreaches, hq'⟩ := reaches_update hq hi.room u v
    exact hi.leadsTo_of_reaches_codeAfter hlt hreaches hq' houtput (by omega)

end Instructions

end Implements

end Image

end CursorMachine.Arm
