import CursorMachine.Proofs.Reading.Regions
import Mathlib.Data.List.Chain

/-!
# The grammar of programs

`Divided ss rs` says how a program is made up: of single statements, and of functions from the
statement that opens one to the statement that closes it, with something between the two that opens
and closes nothing. A close outside a function is a single statement. `rs` are the regions of the
functions.

`Region.collect` finds just this division, or none when a name is opened twice
(`collect_eq_ok_iff_divided`). It goes over every statement and looks ahead from those that open a
function, so it meets the statements of a body again; they open nothing and are passed over
(`collect_append`). It tells an empty body by the lines, so both directions need the statements to
stand on consecutive lines (`Consecutive`), as those of a text do.

`Program.ofText_eq_ok_iff_divided` puts this together for texts, with what a division says about the
order of the regions and the entry.
-/

namespace CursorMachine

/-- Statements divide into single statements and functions, with these regions. -/
inductive Divided : List Statement → List Region → Prop where
  | nil : Divided [] []
  | single {s : Statement} {ss : List Statement} {rs : List Region} (hs : s.opening? = none)
      (hss : Divided ss rs) : Divided (s :: ss) rs
  | function {s c : Statement} {name : String} {body ss : List Statement} {rs : List Region}
      (hs : s.instruction = .function name) (hbody : body ≠ [])
      (hinner : ∀ b ∈ body, b.IsInner) (hc : c.instruction = .close) (hss : Divided ss rs) :
      Divided (s :: (body ++ c :: ss)) (⟨name, s.line, c.line⟩ :: rs)

theorem Statement.opening?_eq_none_of_close {s : Statement} (h : s.instruction = .close) :
    s.opening? = none := by
  rw [Statement.opening?, h]

/-! ### Consecutive lines -/

/-- Each statement stands on the line after the one before it. -/
def Consecutive (ss : List Statement) : Prop := ss.IsChain fun s t ↦ t.line = s.line + 1

namespace Consecutive

variable {s c : Statement} {body ss : List Statement}

theorem tail (h : Consecutive (s :: ss)) : Consecutive ss := List.IsChain.of_cons h

theorem right (h : Consecutive (body ++ ss)) : Consecutive ss := List.IsChain.right_of_append h

theorem pairwise (h : Consecutive ss) : ss.Pairwise fun s t ↦ s.line < t.line := by
  have hlt : ss.IsChain fun s t : Statement ↦ s.line < t.line :=
    List.IsChain.imp (fun s t hst ↦ by omega) h
  exact List.isChain_iff_pairwise.1 hlt

/-- A body is empty just if it is closed on the line after the one that opens it. -/
theorem line_eq_add_one_iff (h : Consecutive (s :: (body ++ c :: ss))) :
    c.line = s.line + 1 ↔ body = [] := by
  constructor
  · intro hline
    rcases body with - | ⟨b, body⟩
    · rfl
    · obtain ⟨hs, hbody⟩ := List.pairwise_cons.1 h.pairwise
      have hsb := hs b (by simp)
      have hbc := (List.pairwise_cons.1 hbody).1 c (by simp)
      omega
  · rintro rfl
    exact (List.isChain_cons_cons.1 h).1

theorem line_add_two_le (h : Consecutive (s :: (body ++ c :: ss))) (hbody : body ≠ []) :
    s.line + 2 ≤ c.line := by
  have hlt := (List.pairwise_cons.1 h.pairwise).1 c (by simp)
  have hne := mt h.line_eq_add_one_iff.1 hbody
  omega

end Consecutive

namespace Region

variable {taken : List String} {ss : List Statement} {rs : List Region}

/-! ### Collecting is dividing -/

/-- A body and the statement that closes it are passed over. -/
theorem collect_append {body : List Statement} {c : Statement} (hinner : ∀ b ∈ body, b.IsInner)
    (hc : c.instruction = .close) : collect taken (body ++ c :: ss) = collect taken ss := by
  induction body with
  | nil => exact collect_cons_of_opening?_eq_none (Statement.opening?_eq_none_of_close hc)
  | cons b body ih =>
    obtain ⟨hb, hbody⟩ := List.forall_mem_cons.1 hinner
    rw [List.cons_append, collect_cons_of_opening?_eq_none hb.1]
    exact ih hbody

theorem divided_of_collect (hlines : Consecutive ss) (h : collect taken ss = .ok rs) :
    Divided ss rs := by
  -- A function takes several statements at once, so the induction is on their number.
  induction hn : ss.length using Nat.strong_induction_on generalizing taken ss rs with
  | _ n ih =>
    rcases ss with - | ⟨s, ss⟩
    · cases h
      exact .nil
    · rcases collect_cons_eq_ok_iff.1 h with ⟨hnone, hss⟩ | ⟨name, r, rest, hname, hr, hss, rfl⟩
      · have hlt : ss.length < n := by rw [← hn, List.length_cons]; omega
        exact .single hnone (ih _ hlt hlines.tail hss rfl)
      · obtain ⟨-, last, hending, hline, rfl⟩ := ofOpening_eq_ok_iff.1 hr
        obtain ⟨body, c, ss, rfl, hinner, hc, rfl⟩ := ending_eq_closed_iff.1 hending
        rw [collect_append hinner hc] at hss
        have hlt : ss.length < n := by
          rw [← hn, List.length_cons, List.length_append, List.length_cons]
          omega
        exact .function hname (mt hlines.line_eq_add_one_iff.2 hline) hinner hc
          (ih _ hlt hlines.tail.right.tail hss rfl)

theorem collect_of_divided (hlines : Consecutive ss) (h : Divided ss rs)
    (hnames : (rs.map name).Nodup) (htaken : ∀ r ∈ rs, r.name ∉ taken) :
    collect taken ss = .ok rs := by
  induction h generalizing taken with
  | nil => rfl
  | single hs _ ih =>
    rw [collect_cons_of_opening?_eq_none hs]
    exact ih hlines.tail hnames htaken
  | @function s c name body ss rs hs hbody hinner hc _ ih =>
    obtain ⟨hnew, hnames⟩ := List.nodup_cons.1 hnames
    obtain ⟨hfree, hrest⟩ := List.forall_mem_cons.1 htaken
    have hending : ending (body ++ c :: ss) = .closed c.line :=
      ending_eq_closed_iff.2 ⟨body, c, ss, rfl, hinner, hc, rfl⟩
    have hopening : ofOpening taken s.line name (body ++ c :: ss) = .ok ⟨name, s.line, c.line⟩ :=
      ofOpening_eq_ok_iff.2 ⟨hfree, c.line, hending, mt hlines.line_eq_add_one_iff.1 hbody, rfl⟩
    have hss : collect (name :: taken) (body ++ c :: ss) = .ok rs := by
      rw [collect_append hinner hc]
      refine ih hlines.tail.right.tail hnames fun r hr hmem ↦ ?_
      rcases List.mem_cons.1 hmem with heq | hmem
      · exact hnew (List.mem_map.2 ⟨r, hr, heq⟩)
      · exact hrest r hr hmem
    exact collect_cons_eq_ok_iff.2 (.inr ⟨name, _, rs, hs, hopening, hss, rfl⟩)

/-- **Collecting the regions is dividing the statements**, when no name is opened twice. -/
theorem collect_eq_ok_iff_divided (hlines : Consecutive ss) :
    collect [] ss = .ok rs ↔ Divided ss rs ∧ (rs.map name).Nodup := by
  constructor
  · exact fun h ↦ ⟨divided_of_collect hlines h, (nodup_collect h).1⟩
  · exact fun ⟨h, hnames⟩ ↦ collect_of_divided hlines h hnames fun _ _ ↦ List.not_mem_nil

end Region

/-! ### What a division says about its regions -/

namespace Divided

variable {ss : List Statement} {rs : List Region}

/-- The regions are those of the statements that open a function, in order. -/
theorem map_eq (h : Divided ss rs) :
    (rs.map fun r ↦ (r.name, r.first)) = ss.filterMap Statement.opening? := by
  induction h with
  | nil => rfl
  | single hs _ ih => rw [List.filterMap_cons_none hs, ih]
  | @function s c name body ss rs hs _ hinner hc _ ih =>
    have hbody : body.filterMap Statement.opening? = [] :=
      List.filterMap_eq_nil_iff.2 fun b hb ↦ (hinner b hb).1
    rw [List.filterMap_cons_some (Statement.opening?_eq_some_iff.2 ⟨hs, rfl⟩),
      List.filterMap_append, hbody, List.nil_append,
      List.filterMap_cons_none (Statement.opening?_eq_none_of_close hc), List.map_cons, ih]

/-- The regions have the names that are opened. -/
theorem map_name_eq (h : Divided ss rs) :
    rs.map Region.name = (ss.filterMap Statement.opening?).map Prod.fst := by
  rw [← h.map_eq, List.map_map]
  rfl

/-- A region begins on the line of a statement. -/
theorem exists_mem_line_eq_first (h : Divided ss rs) {r : Region} (hr : r ∈ rs) :
    ∃ s ∈ ss, s.line = r.first := by
  have hmem : (r.name, r.first) ∈ ss.filterMap Statement.opening? :=
    h.map_eq ▸ List.mem_map.2 ⟨r, hr, rfl⟩
  obtain ⟨s, hs, hopening⟩ := List.mem_filterMap.1 hmem
  exact ⟨s, hs, (Statement.opening?_eq_some_iff.1 hopening).2⟩

/-- A region has a line between its first and its last. -/
theorem first_add_two_le (h : Divided ss rs) (hlines : Consecutive ss) {r : Region} (hr : r ∈ rs) :
    r.first + 2 ≤ r.last := by
  induction h with
  | nil => cases hr
  | single _ _ ih => exact ih hlines.tail hr
  | function _ hbody _ _ _ ih =>
    rcases List.mem_cons.1 hr with rfl | hr
    · exact hlines.line_add_two_le hbody
    · exact ih hlines.tail.right.tail hr

/-- A region ends before the next one begins. -/
theorem pairwise (h : Divided ss rs) (hlines : Consecutive ss) :
    rs.Pairwise fun r r' ↦ r.last < r'.first := by
  induction h with
  | nil => exact .nil
  | single _ _ ih => exact ih hlines.tail
  | function _ _ _ _ hss ih =>
    have hafter := hlines.tail.right
    refine .cons (fun r hr ↦ ?_) (ih hafter.tail)
    obtain ⟨s, hs, hline⟩ := hss.exists_mem_line_eq_first hr
    exact hline ▸ (List.pairwise_cons.1 hafter.pairwise).1 s hs

end Divided

/-! ### Programs -/

namespace Program

/-- **No region ends after the entry.** -/
theorem last_le_entry {p : Program} (hlines : Consecutive p.statements)
    (h : Divided p.statements p.regions) {r : Region} (hr : r ∈ p.regions) : r.last ≤ p.entry := by
  unfold entry
  split
  next last hlast =>
    obtain ⟨before, hregions⟩ := List.getLast?_eq_some_iff.1 hlast
    have hmem : last ∈ p.regions := List.mem_of_getLast? hlast
    have hle := h.first_add_two_le hlines hmem
    have hpairwise := h.pairwise hlines
    rw [hregions] at hr hpairwise
    rcases List.mem_append.1 hr with hr | hr
    · have hlt := (List.pairwise_append.1 hpairwise).2.2 r hr last (by simp)
      omega
    · rw [List.mem_singleton.1 hr]
  next hnone =>
    rw [List.getLast?_eq_none_iff.1 hnone] at hr
    cases hr

theorem consecutive_of_reads {text : String} {ss : List Statement}
    (h : List.Forall₂ Statement.Reads (Token.rows text) ss) : Consecutive ss := by
  refine List.isChain_iff_getElem.2 fun i hi ↦ ?_
  have hfirst := line_eq_of_reads h (List.getElem?_eq_getElem (Nat.lt_of_succ_lt hi))
  have hsecond := line_eq_of_reads h (List.getElem?_eq_getElem hi)
  omega

/-- When the rows of a text read as statements, the text is the program of these statements, if
their regions can be collected and some statement is `exit`. -/
theorem ofText_eq_ok_iff_of_readStatements {text : String} {ss : List Statement} {p : Program}
    (hss : readStatements (Token.rows text) = .ok ss) :
    ofText text = .ok p ↔
      p.statements = ss ∧ Region.collect [] ss = .ok p.regions ∧
        ∃ s ∈ ss, s.instruction = .exit := by
  have hany : (ss.any (·.instruction == .exit) = true) ↔ ∃ s ∈ ss, s.instruction = .exit := by simp
  rw [ofText_eq_ok_iff, ← readStatements_eq_ok_iff fun _ ↦ Token.ne_nil_of_mem_rows, hss,
    Except.ok.injEq, ← hany]
  constructor
  · rintro ⟨rfl, hp⟩
    exact ⟨rfl, hp⟩
  · rintro ⟨rfl, hp⟩
    exact ⟨rfl, hp⟩

/-- **A text is a program just if its statements divide into single statements and functions**, no
name is opened twice, and some statement is `exit`. The regions are those of the division: one for
each statement that opens a function, in order. Each has a line between its first and its last and
ends before the next one begins, and the entry lies after all of them. -/
theorem ofText_eq_ok_iff_divided {text : String} {ss : List Statement}
    (hss : readStatements (Token.rows text) = .ok ss) :
    ((∃ p, ofText text = .ok p) ↔
      (∃ rs, Divided ss rs) ∧ ((ss.filterMap Statement.opening?).map Prod.fst).Nodup ∧
        ∃ s ∈ ss, s.instruction = .exit) ∧
    ∀ p, ofText text = .ok p →
      p.statements = ss ∧ Divided ss p.regions ∧
        (p.regions.map fun r ↦ (r.name, r.first)) = ss.filterMap Statement.opening? ∧
        (∀ r ∈ p.regions, r.first + 2 ≤ r.last ∧ r.last ≤ p.length ∧ r.last ≤ p.entry) ∧
        (p.regions.Pairwise fun r r' ↦ r.last < r'.first) ∧ p.entry ≤ p.length := by
  have hreads := (readStatements_eq_ok_iff fun _ ↦ Token.ne_nil_of_mem_rows).1 hss
  have hlines := consecutive_of_reads hreads
  refine ⟨⟨?_, ?_⟩, fun p hp ↦ ?_⟩
  · rintro ⟨p, hp⟩
    obtain ⟨-, hcollect, hexit⟩ := (ofText_eq_ok_iff_of_readStatements hss).1 hp
    obtain ⟨hdivided, hnodup⟩ := (Region.collect_eq_ok_iff_divided hlines).1 hcollect
    exact ⟨⟨_, hdivided⟩, hdivided.map_name_eq ▸ hnodup, hexit⟩
  · rintro ⟨⟨rs, hdivided⟩, hnodup, hexit⟩
    rw [← hdivided.map_name_eq] at hnodup
    have hcollect := (Region.collect_eq_ok_iff_divided hlines).2 ⟨hdivided, hnodup⟩
    exact ⟨⟨ss, rs⟩, (ofText_eq_ok_iff_of_readStatements hss).2 ⟨rfl, hcollect, hexit⟩⟩
  · have hwf := wellFormed_of_ofText hp
    obtain ⟨rfl, hcollect, -⟩ := (ofText_eq_ok_iff_of_readStatements hss).1 hp
    have hdivided := Region.divided_of_collect hlines hcollect
    refine ⟨rfl, hdivided, hdivided.map_eq, fun r hr ↦ ?_, hdivided.pairwise hlines,
      hwf.entry_le_length⟩
    obtain ⟨s, hs, hline⟩ := Region.exists_mem_of_mem_collect hcollect hr
    refine ⟨hdivided.first_add_two_le hlines hr, ?_, last_le_entry hlines hdivided hr⟩
    exact hline ▸ (hwf.statement?_of_mem hs).2.1

/-- A close that stands alone and two functions, the second of which holds the only `exit` and ends
on the last line. -/
theorem ofText_eq_ok_iff_divided_two :
    ∃ (ss : List Statement) (p : Program),
      readStatements (Token.rows
        "close\nmake function f\nprint\nclose\nmake function g\nexit\nclose") = .ok ss ∧
      ofText "close\nmake function f\nprint\nclose\nmake function g\nexit\nclose" = .ok p ∧
      p.regions = [⟨"f", 2, 4⟩, ⟨"g", 5, 7⟩] ∧ p.entry = 7 ∧ Divided ss p.regions ∧
      ((ss.filterMap Statement.opening?).map Prod.fst).Nodup ∧
      (∃ s ∈ ss, s.instruction = .exit) ∧
      (∀ r ∈ p.regions, r.first + 2 ≤ r.last ∧ r.last ≤ p.length ∧ r.last ≤ p.entry) ∧
      p.regions.Pairwise fun r r' ↦ r.last < r'.first := by
  let ss : List Statement :=
    [⟨1, [], .close⟩, ⟨2, ["f"], .function "f"⟩, ⟨3, [], .print⟩, ⟨4, [], .close⟩,
      ⟨5, ["g"], .function "g"⟩, ⟨6, [], .exit⟩, ⟨7, [], .close⟩]
  let p : Program := ⟨ss, [⟨"f", 2, 4⟩, ⟨"g", 5, 7⟩]⟩
  have hss : readStatements (Token.rows
      "close\nmake function f\nprint\nclose\nmake function g\nexit\nclose") = .ok ss := by rfl
  have hp : ofText
      "close\nmake function f\nprint\nclose\nmake function g\nexit\nclose" = .ok p := by rfl
  obtain ⟨hiff, hregions⟩ := ofText_eq_ok_iff_divided hss
  obtain ⟨-, hnodup, hexit⟩ := hiff.1 ⟨p, hp⟩
  obtain ⟨-, hdivided, -, hbounds, hpairwise, -⟩ := hregions p hp
  exact ⟨ss, p, hss, hp, rfl, rfl, hdivided, hnodup, hexit, hbounds, hpairwise⟩

end Program

end CursorMachine
