import CursorMachine.Proofs.Running.Effects

/-!
# Calls land in bodies

A call goes on with the first line of the body of the function that it names. Four parts of the
program have to agree on where that is: the pass that finds the regions, the table that preparation
makes of them, the call, which takes the number of a line for the place after it, and the landing.

The two sides are joined at `Program.WellFormed.hasBody`, which says what stands at the places
around the first line of a region: the statement that opens the function, and then a statement that
neither opens nor closes one, before the line that closes it. It rests on the way each region was
collected (`Region.exists_eq_append_of_mem_collect`). Carrying out a call, a jump or an opening
statement is one lemma each, over the common fact that a statement that goes on with a place of the
program lands there (`Machine.attempt_of_place`).

`Machine.attempt_call_of_prepare` is the theorem for programs that were read and prepared. It gives
a call also in terms of other statements: as the jump to the first line of the body, and as the jump
to the line that opens the function, followed by the statement there.
-/

namespace CursorMachine

/-! ### Bodies -/

namespace Program

variable {p : Program} {r : Region} {name : String}

/-- What stands around the first line of a region. -/
structure HasBody (p : Program) (r : Region) : Prop where
  /-- The region leaves a line for its body. -/
  first_add_one_lt : r.first + 1 < r.last
  last_le : r.last ≤ p.length
  /-- The first line opens the function. -/
  opening : ∃ s, p.statement? (r.first - 1) = some s ∧ s.line = r.first ∧
    s.instruction = .function r.name
  /-- The line after it opens and closes nothing. -/
  inner : ∃ s, p.statement? r.first = some s ∧ s.line = r.first + 1 ∧ s.IsInner

/-- **Every region has a body.** -/
theorem WellFormed.hasBody (hp : p.WellFormed) (hr : r ∈ p.regions) : p.HasBody r := by
  obtain ⟨before, s, body, c, after, hstatements, hname, hfirst, hinner, hlast, hne⟩ :=
    Region.exists_eq_append_of_mem_collect hp.collected hr
  have hopening : p.statement? before.length = some s := by
    rw [statement?, hstatements, List.getElem?_append_right (Nat.le_refl _), Nat.sub_self]
    rfl
  have hrest : ∀ i, p.statement? (before.length + 1 + i) = (body ++ c :: after)[i]? := by
    intro i
    rw [statement?, hstatements, List.getElem?_append_right (by omega), Nat.add_assoc,
      Nat.add_sub_cancel_left, Nat.add_comm 1 i, List.getElem?_cons_succ]
  have hline := hp.line_eq hopening
  have hclosing : p.statement? (before.length + 1 + body.length) = some c := by
    rw [hrest, List.getElem?_append_right (Nat.le_refl _), Nat.sub_self]
    rfl
  have hlastLine := hp.line_eq hclosing
  have hlt := lt_length_of_statement? hclosing
  -- A body without a statement would be closed on the line after the first.
  rcases body with - | ⟨b, body⟩
  · rw [List.length_nil] at hlastLine
    omega
  · have hfirstInner : p.statement? r.first = some b := by
      have hb := hrest 0
      rw [List.cons_append, List.getElem?_cons_zero] at hb
      rw [← hb, ← hfirst, hline, Nat.add_zero]
    rw [List.length_cons] at hlastLine hlt
    refine ⟨by omega, by omega, ⟨s, ?_, hfirst, hname⟩,
      ⟨b, hfirstInner, hp.line_eq hfirstInner, hinner b List.mem_cons_self⟩⟩
    rw [← hfirst, hline, Nat.add_sub_cancel]
    exact hopening

/-- The function that a region is found for has its opening line in the table. -/
theorem WellFormed.lookup_table_of_region? (hp : p.WellFormed) (h : p.region? name = some r) :
    r ∈ p.regions ∧ r.name = name ∧ p.table.lookup name = some r.first := by
  have hmem : r ∈ p.regions := List.mem_of_find?_eq_some h
  have hname : r.name = name := by simpa using List.find?_some h
  obtain ⟨s, hs, hline, hopens⟩ := (hp.hasBody hmem).opening
  exact ⟨hmem, hname,
    hp.lookup_table_eq_some_iff.2 ⟨s, mem_of_statement? hs, hname ▸ hopens, hline⟩⟩

/-- When no region is found for a name, no statement opens a function of that name. -/
theorem WellFormed.ne_function_of_region? (hp : p.WellFormed) (h : p.region? name = none)
    {s : Statement} (hs : s ∈ p.statements) : s.instruction ≠ .function name := by
  intro hopens
  have hmem : (name, s.line) ∈ p.table := by
    rw [hp.table_eq]
    exact List.mem_filterMap.2 ⟨s, hs, Statement.opening?_eq_some_iff.2 ⟨hopens, rfl⟩⟩
  obtain ⟨r, hr, heq⟩ := List.mem_map.1 hmem
  have hne := List.find?_eq_none.1 h r hr
  simp only [beq_iff_eq] at hne
  exact hne (congrArg Prod.fst heq)

end Program

/-! ### Landing -/

namespace Machine

variable {size length : Nat} {m m' : Machine size} {s : Statement}

/-- A statement that goes on with a place of the program lands there. -/
theorem attempt_of_place {k : Nat} (heffect : m.effect s = .ok (m', (k : Int)))
    (hk : k ≤ length) (hlength : (length : Int) < farthest) :
    m.attempt length s = ⟨{ m' with position := k }, none⟩ := by
  have hsaturate : saturate ((k : Int) + 1) = ((k + 1 : Nat) : Int) := saturate_of_le (by omega)
  have hland : checkTarget (saturate ((k : Int) + 1)) length = .ok (k + 1) :=
    checkTarget_eq_ok_iff.2 ⟨hsaturate, by omega, by omega⟩
  exact attempt_of_landing heffect hland

theorem attempt_jumpTo {k : Nat} (hs : s.instruction = .jumpTo (k + 1)) (hk : k ≤ length)
    (hlength : (length : Int) < farthest) :
    m.attempt length s = ⟨{ m with position := k }, none⟩ := by
  refine attempt_of_place ?_ hk hlength
  rw [effect, hs]
  simp

/-- Opening a function does nothing, and goes on with the next line. -/
theorem attempt_function {k : Nat} {name : String} (hs : s.instruction = .function name)
    (hline : s.line = k) (hpos : 1 ≤ k) (hk : k ≤ length) (hlength : (length : Int) < farthest) :
    m.attempt length s = ⟨{ m with position := k }, none⟩ := by
  refine attempt_of_place ?_ hk hlength
  rw [effect, hs, Statement.index, hline]
  dsimp only
  congr 2
  omega

theorem attempt_call {name : String} {first : Nat} (hs : s.instruction = .call name)
    (hname : m.opening? name = some first) (hfirst : first ≤ length)
    (hlength : (length : Int) < farthest) :
    m.attempt length s = ⟨{ m with position := first }, none⟩ := by
  refine attempt_of_place ?_ hfirst hlength
  rw [effect, hs]
  dsimp only
  rw [hname]

theorem attempt_call_of_none {name : String} (hs : s.instruction = .call name)
    (hname : m.opening? name = none) :
    m.attempt length s = ⟨m, some (.functionNotFound s.line name)⟩ := by
  refine attempt_of_effect_error ?_
  rw [effect, hs]
  dsimp only
  rw [hname]

/-- **A call lands on the first line of the body it names.** Whatever the machine holds, as long as
its functions are those that were prepared, a call of a declared function only moves the position.
It moves it to the line after the one that opens the function; there stands a statement that neither
opens nor closes a function, and the line that closes this one is still to come. A jump to that line
does the same, and so does a jump to the line that opens the function, followed by the statement
there. A call of a function that is not declared is blamed on its line. A text in memory is shorter
than `2 ^ 63` characters, so no line lies beyond `farthest`. -/
theorem attempt_call_of_prepare {source : String} (hsource : source.length < 2 ^ 63) {p : Program}
    {setup : Setup} {start : Machine setup.cells} (hp : Program.ofText source = .ok p)
    (hstart : prepare p setup = .ok start) {size : Nat} (m : Machine size)
    (hm : m.functions = start.functions) {s : Statement} {name : String}
    (hs : s.instruction = .call name) :
    match p.region? name with
    | some r =>
      m.attempt p.length s = ⟨{ m with position := r.first }, none⟩ ∧
        r.first + 1 < r.last ∧ r.last ≤ p.length ∧
        (∃ t, p.statement? r.first = some t ∧ t.line = r.first + 1 ∧
          (∀ f, t.instruction ≠ .function f) ∧ t.instruction ≠ .close) ∧
        (∀ u : Statement, u.instruction = .jumpTo (r.first + 1) →
          m.attempt p.length u = m.attempt p.length s) ∧
        ∀ u : Statement, u.instruction = .jumpTo r.first →
          ∃ m' o, m.attempt p.length u = ⟨m', none⟩ ∧ p.statement? m'.position = some o ∧
            o.instruction = .function name ∧ m'.attempt p.length o = m.attempt p.length s
    | none =>
      (∀ t ∈ p.statements, t.instruction ≠ .function name) ∧
        m.attempt p.length s = ⟨m, some (.functionNotFound s.line name)⟩ := by
  have hwf := Program.wellFormed_of_ofText hp
  have hlength : (p.length : Int) < farthest := by
    have := Program.length_le_of_ofText hp hsource
    unfold farthest
    omega
  have htable : m.functions = p.table := hm.trans (prepare_eq_ok_iff.1 hstart).2.2.2.2.2.1
  split
  next r hr =>
    obtain ⟨hmem, hname, hlookup⟩ := hwf.lookup_table_of_region? hr
    have hbody := hwf.hasBody hmem
    have hlt := hbody.first_add_one_lt
    have hle := hbody.last_le
    obtain ⟨o, ho, holine, hopens⟩ := hbody.opening
    obtain ⟨t, ht, htline, htinner⟩ := hbody.inner
    have hopening : m.opening? name = some r.first := by rw [opening?, htable, hlookup]
    have hcall := attempt_call hs hopening (by omega) hlength
    have hpos : 1 ≤ r.first := holine ▸ (hwf.statement?_of_mem (Program.mem_of_statement? ho)).1
    refine ⟨hcall, hlt, hle,
      ⟨t, ht, htline, Statement.opening?_eq_none_iff.1 htinner.1, htinner.2⟩,
      fun u hu ↦ (attempt_jumpTo hu (by omega) hlength).trans hcall.symm, fun u hu ↦ ?_⟩
    have hfirst : r.first = r.first - 1 + 1 := by omega
    refine ⟨_, o, attempt_jumpTo (hfirst ▸ hu) (by omega) hlength, ho, hname ▸ hopens, ?_⟩
    rw [hcall, attempt_function hopens holine hpos (by omega) hlength]
  next hnone =>
    have hopening : m.opening? name = none := by
      rw [opening?, htable, Option.eq_none_iff_forall_ne_some]
      intro line hline
      obtain ⟨t, ht, hopens, -⟩ := hwf.lookup_table_eq_some_iff.1 hline
      exact hwf.ne_function_of_region? hnone ht hopens
    exact ⟨fun t ht ↦ hwf.ne_function_of_region? hnone ht, attempt_call_of_none hs hopening⟩

/-- A call of a function that is declared further on, and one of a function that is not declared, on
a machine that has run for a while. -/
theorem attempt_call_of_prepare_both :
    ∃ (p : Program) (start m : Machine 2),
      Program.ofText "run function g\nrun function h\nmake function g\nprint\nclose\nexit" = .ok p ∧
      prepare p { cells := 2, inputs := [7] } = .ok start ∧
      m.functions = start.functions ∧ m ≠ start ∧ p.region? "g" = some ⟨"g", 3, 5⟩ ∧
      m.attempt p.length ⟨1, ["g"], .call "g"⟩ = ⟨{ m with position := 3 }, none⟩ ∧
      (∃ t, p.statement? 3 = some t ∧ t.instruction ≠ .close) ∧
      m.attempt p.length ⟨2, ["h"], .call "h"⟩ = ⟨m, some (.functionNotFound 2 "h")⟩ := by
  let p : Program :=
    ⟨[⟨1, ["g"], .call "g"⟩, ⟨2, ["h"], .call "h"⟩, ⟨3, ["g"], .function "g"⟩, ⟨4, [], .print⟩,
      ⟨5, [], .close⟩, ⟨6, [], .exit⟩], [⟨"g", 3, 5⟩]⟩
  let start : Machine 2 := ⟨#v[7, 0], 0, 5, [("g", 3)], #[]⟩
  let m : Machine 2 := ⟨#v[7, -3], 1, 0, [("g", 3)], #[-3, 7]⟩
  have hp : Program.ofText
      "run function g\nrun function h\nmake function g\nprint\nclose\nexit" = .ok p := by rfl
  have hstart : prepare p { cells := 2, inputs := [7] } = .ok start := by rfl
  obtain ⟨hcall, -, -, ⟨t, ht, -, -, hclose⟩, -, -⟩ :=
    attempt_call_of_prepare (by decide) hp hstart m rfl
      (rfl : (⟨1, ["g"], .call "g"⟩ : Statement).instruction = .call "g")
  obtain ⟨-, hnone⟩ := attempt_call_of_prepare (by decide) hp hstart m rfl
    (rfl : (⟨2, ["h"], .call "h"⟩ : Statement).instruction = .call "h")
  exact ⟨p, start, m, hp, hstart, rfl, by decide, rfl, hcall, ⟨t, ht, hclose⟩, hnone⟩

end Machine

end CursorMachine
