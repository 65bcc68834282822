import CursorMachine.Proofs.CommandLine.Plans
import Mathlib.Data.Option.Basic

/-!
# The view among the arguments

Main statement: when arguments that name a view by `-s` make up a request, naming another view at
the same place makes up the same request but for the view, or else none of these requests comes to
run a program and they all fail in the same way (`Request.plan_arguments_cases`).

A scan goes from left to right, so what comes before `-s` is scanned without regard to the view, and
so is what comes after, since the view leaves the scan waiting for the same (`Stance.scans_view`).
In between there is one setting and its value, and no other value of that setting, for a value never
comes without its setting (`Stance.Scans.named`) and the setting may be given once. Only inputs are
in the way: they take all that follows, dashes or not. Then `-s` is an input, and no number.
-/

namespace CursorMachine.CommandLine

/-! ### Scans in parts -/

namespace Stance

variable {s t : Stance} {arg : String} {args rest : List String} {items : List Item}

/-- A scan of arguments, from a stance to a stance. -/
inductive Scans : Stance → List String → List Item → Stance → Prop where
  | nil (s : Stance) : Scans s [] [] s
  | cons {s t u : Stance} {arg : String} {args : List String} {first more : List Item}
      (h : s.push arg = .ok (first, t)) (hrest : Scans t args more u) :
      Scans s (arg :: args) (first ++ more) u

/-- **Arguments are scanned in parts.** -/
theorem scan_append_eq_ok_iff :
    Item.scan s (args ++ rest) = .ok items ↔
      ∃ first t more,
        Scans s args first t ∧ Item.scan t rest = .ok more ∧ items = first ++ more := by
  induction args generalizing s items with
  | nil =>
    constructor
    · intro h
      exact ⟨[], s, items, .nil s, h, rfl⟩
    · rintro ⟨first, t, more, ⟨⟩, hmore, rfl⟩
      exact hmore
  | cons arg args ih =>
    rw [List.cons_append, Item.scan, bind_eq_ok_iff]
    constructor
    · rintro ⟨⟨first, t⟩, hpush, h⟩
      obtain ⟨more, hmore, h⟩ := bind_eq_ok_iff.1 h
      cases h
      obtain ⟨front, u, back, hscans, hback, rfl⟩ := ih.1 hmore
      exact ⟨first ++ front, u, back, .cons hpush hscans, hback, (List.append_assoc ..).symm⟩
    · rintro ⟨_, u, back, hscans, hback, rfl⟩
      cases hscans with
      | @cons _ t _ _ _ first front hpush hscans =>
        refine ⟨(first, t), hpush, ?_⟩
        dsimp only
        rw [ih.2 ⟨front, u, back, hscans, hback, rfl⟩, List.append_assoc]
        rfl

theorem Scans.unique {more : List Item} {u : Stance} (h : Scans s args items t)
    (h' : Scans s args more u) : items = more ∧ t = u := by
  induction h generalizing more with
  | nil s =>
    cases h'
    exact ⟨rfl, rfl⟩
  | cons hpush _ ih =>
    obtain _ | ⟨hpush', hrest'⟩ := h'
    cases hpush.symm.trans hpush'
    obtain ⟨rfl, rfl⟩ := ih hrest'
    exact ⟨rfl, rfl⟩

/-! ### A view in a scan -/

theorem scans_two {a b : String} {first second : List Item} {t u : Stance}
    (ha : s.push a = .ok (first, t)) (hb : t.push b = .ok (second, u)) :
    Scans s [a, b] (first ++ second) u := by
  have h := Scans.cons ha (.cons hb (.nil u))
  rwa [List.append_nil] at h

end Stance

/-- The name of a view. -/
def View.name : View → String
  | .none => "none"
  | .final => "final"
  | .all => "all"

theorem View.ofName?_name (v : View) : ofName? v.name = some v := by
  cases v <;> rfl

/-- Arguments that name a view, between others. -/
def View.arguments (before after : List String) (v : View) : List String :=
  before ++ ["-s", v.name] ++ after

namespace Stance

variable {s : Stance} (hpaths : s.pathsOnly = false)

include hpaths

/-- **A view is the value of its setting**, whatever is awaited, unless it is inputs. -/
theorem scans_view (hawaiting : s.awaiting ≠ .value .inputs) (v : View) :
    s.Scans ["-s", v.name] ([.setting .state] ++ [.value .state v.name])
      { s with awaiting := .satisfied } := by
  obtain ⟨awaiting, _, hasPath⟩ := s
  cases hpaths
  refine scans_two (t := ⟨.value .state, false, hasPath⟩) ?_ ?_
  · cases awaiting with
    | nothing | satisfied => rfl
    | value x =>
      cases x with
      | inputs => exact absurd rfl hawaiting
      | memory | state | output | entry => rfl
  · cases v <;> rfl

/-- While inputs are awaited everything is one. -/
theorem scans_inputs (hawaiting : s.awaiting = .value .inputs) (a b : String) :
    s.Scans [a, b] ([.value .inputs a] ++ [.value .inputs b]) s := by
  obtain ⟨_, _, hasPath⟩ := s
  cases hpaths
  cases hawaiting
  exact scans_two rfl rfl

omit hpaths in
/-- There are no two paths. -/
theorem not_scans_of_pathsOnly (hpaths : s.pathsOnly = true) {a b : String} {items : List Item}
    {t : Stance} : ¬s.Scans [a, b] items t := by
  obtain ⟨awaiting, _, hasPath⟩ := s
  cases hpaths
  intro h
  obtain _ | ⟨ha, hrest⟩ := h
  obtain _ | ⟨hb, -⟩ := hrest
  cases hasPath
  · cases ha
    cases hb
  · cases ha

end Stance

/-! ### Settings and their values -/

open Request (values)

/-- Items and what is awaited after them keep to the settings among the items: they have no value of
another, and none is awaited. -/
def Named (scanned : List Item × Awaiting) : Prop :=
  ∀ x, .setting x ∉ scanned.1 → values scanned.1 x = [] ∧ scanned.2 ≠ .value x

theorem values_append (items more : List Item) (x : Setting) :
    values (items ++ more) x = values items x ++ values more x :=
  List.filterMap_append

theorem named_switch (s : Switch) : Named ([.switch s], .nothing) :=
  fun _ _ ↦ ⟨rfl, nofun⟩

theorem named_setting (s : Setting) : Named ([.setting s], .value s) := by
  intro x hx
  refine ⟨rfl, ?_⟩
  rintro ⟨⟩
  exact hx (by simp)

theorem afterValue_ne {s x : Setting} (h : s ≠ x) : Awaiting.afterValue s ≠ .value x := by
  cases s with
  | inputs =>
    rintro ⟨⟩
    exact h rfl
  | memory | state | output | entry => nofun

theorem named_scanAttached (s : Setting) (equals : Bool) (text : List Char) :
    Named (scanAttached s equals text) := by
  intro x hx
  have hne : s ≠ x := by
    rintro rfl
    exact hx (by simp [scanAttached])
  refine ⟨by simp [scanAttached, values, hne], ?_⟩
  cases equals
  · exact afterValue_ne hne
  · nofun

theorem named_scanLong {arg : List Char} {scanned : List Item × Awaiting}
    (h : scanLong arg = .ok scanned) : Named scanned := by
  unfold scanLong at h
  dsimp only at h
  split at h <;> cases h
  · exact named_switch _
  · exact named_setting _
  · exact named_scanAttached _ _ _

theorem named_scanShort {letters : List Char} {scanned : List Item × Awaiting}
    (h : scanShort letters = .ok scanned) : Named scanned := by
  induction letters generalizing scanned with
  | nil =>
    cases h
    exact fun _ _ ↦ ⟨rfl, nofun⟩
  | cons c rest ih =>
    unfold scanShort at h
    split at h
    next => cases h
    next => cases h
    next s _ =>
      rcases hrest : scanShort rest with stop | ⟨more, w⟩ <;> rw [hrest] at h <;> cases h
      intro x hx
      exact ih hrest x fun hmore ↦ hx (List.mem_cons_of_mem _ hmore)
    next =>
      split at h <;> cases h
      · exact named_setting _
      · exact named_scanAttached _ _ _
      · exact named_scanAttached _ _ _

namespace Stance

variable {s t : Stance} {arg : String} {args : List String} {items : List Item} {x : Setting}

theorem takePath_eq_ok (h : s.takePath arg = .ok (items, t)) :
    items = [.path arg] ∧ t.awaiting = s.awaiting := by
  unfold takePath at h
  split at h <;> cases h
  exact ⟨rfl, rfl⟩

theorem after_eq_ok {scanned : Scanned} (h : s.after scanned = .ok (items, t)) :
    scanned = .ok (items, t.awaiting) := by
  rcases scanned with stop | ⟨more, w⟩ <;> cases h
  rfl

/-- What one argument adds keeps to its setting. -/
theorem named_push (h : s.push arg = .ok (items, t)) (hs : s.awaiting ≠ .value x)
    (hx : .setting x ∉ items) : values items x = [] ∧ t.awaiting ≠ .value x := by
  have hpath : s.takePath arg = .ok (items, t) → values items x = [] ∧ t.awaiting ≠ .value x := by
    intro htake
    obtain ⟨rfl, hawaiting⟩ := takePath_eq_ok htake
    exact ⟨rfl, hawaiting ▸ hs⟩
  unfold push at h
  dsimp only at h
  split at h
  · exact hpath h
  · split at h
    · cases h
      exact ⟨rfl, hs⟩
    · split at h
      · split at h
        next => exact named_scanLong (after_eq_ok h) x hx
        next => exact named_scanShort (after_eq_ok h) x hx
        next => exact hpath h
      · split at h
        next y hy =>
          cases h
          have hne : y ≠ x := by
            rintro rfl
            exact hs hy
          exact ⟨by simp [values, hne], afterValue_ne hne⟩
        next => exact hpath h

/-- **A value never comes without its setting.** -/
theorem Scans.named (h : s.Scans args items t) (hs : s.awaiting ≠ .value x)
    (hx : .setting x ∉ items) : values items x = [] ∧ t.awaiting ≠ .value x := by
  induction h with
  | nil s => exact ⟨rfl, hs⟩
  | cons hpush _ ih =>
    rw [List.mem_append, not_or] at hx
    obtain ⟨hfirst, hawaiting⟩ := named_push hpush hs hx.1
    obtain ⟨hmore, hlast⟩ := ih hawaiting hx.2
    exact ⟨by rw [values_append, hfirst, hmore]; rfl, hlast⟩

end Stance

/-! ### Requests by their items -/

/-- The path in an item. -/
def Item.path? : Item → Option String
  | .path text => some text
  | _ => none

namespace Request

/-- The mode that switches ask for. -/
def mode? (items : List Item) : Option Mode :=
  match items.contains (.switch .interpret), items.contains (.switch .compile) with
  | true, false => some .interpret
  | false, true => some .compile
  | _, _ => none

/-- What makes a request of items. -/
structure Composes (items : List Item) (r : Request) : Prop where
  once : ∀ item ∈ unrepeated, items.count item ≤ 1
  given : ∀ s ∈ [Setting.inputs, Setting.output], .setting s ∈ items → values items s ≠ []
  path_eq : items.findSome? Item.path? = some r.path
  mode_eq : mode? items = some r.mode
  view_eq : View.ofName? ((values items .state).headD "none") = some r.view
  memory_eq : (values items .memory).headD "32" = r.memory
  inputs_eq : values items .inputs = r.inputs
  output_eq : (values items .output).head? = r.output
  entry_eq : (values items .entry).headD "_start" = r.entry
  comments_eq : items.contains (.switch .comments) = r.comments
  listing_eq : items.contains (.switch .listing) = r.listing

theorem ofItems?_eq (items : List Item) :
    ofItems? items = do
      guard (unrepeated.all fun item ↦ items.count item ≤ 1)
      guard ([Setting.inputs, Setting.output].all fun s ↦
        !items.contains (.setting s) || !(values items s).isEmpty)
      let path ← items.findSome? Item.path?
      let mode ← mode? items
      let view ← View.ofName? ((values items .state).headD "none")
      return {
        path, mode, view
        memory := (values items .memory).headD "32"
        inputs := values items .inputs
        output := (values items .output).head?
        entry := (values items .entry).headD "_start"
        comments := items.contains (.switch .comments)
        listing := items.contains (.switch .listing) } := by
  unfold ofItems? mode?
  cases items.contains (.switch .interpret) <;> cases items.contains (.switch .compile) <;> rfl

/-- **What it takes for items to make up a request.** -/
theorem ofItems?_eq_some_iff {items : List Item} {r : Request} :
    ofItems? items = some r ↔ Composes items r := by
  have honce : (unrepeated.all fun item ↦ items.count item ≤ 1) = true ↔
      ∀ item ∈ unrepeated, items.count item ≤ 1 := by
    simp only [List.all_eq_true, decide_eq_true_eq]
  have hgiven : ([Setting.inputs, Setting.output].all fun s ↦
        !items.contains (.setting s) || !(values items s).isEmpty) = true ↔
      ∀ s ∈ [Setting.inputs, Setting.output], .setting s ∈ items → values items s ≠ [] := by
    simp only [List.all_eq_true, Bool.or_eq_true, Bool.not_eq_true', List.contains_eq_mem,
      decide_eq_false_iff_not, List.isEmpty_eq_false_iff, imp_iff_not_or]
  rw [ofItems?_eq]
  simp only [bind, Option.bind_eq_some_iff, Option.guard_eq_some', honce, hgiven]
  constructor
  · rintro ⟨-, honce, -, hgiven, path, hpath, mode, hmode, view, hview, h⟩
    cases h
    exact ⟨honce, hgiven, hpath, hmode, hview, rfl, rfl, rfl, rfl, rfl, rfl⟩
  · intro h
    refine ⟨(), h.once, (), h.given, r.path, h.path_eq, r.mode, h.mode_eq, r.view, h.view_eq, ?_⟩
    rw [h.memory_eq, h.inputs_eq, h.output_eq, h.entry_eq, h.comments_eq, h.listing_eq]
    rfl

theorem ofArguments_eq_ok_iff {args : List String} {r : Request} :
    ofArguments args = .ok r ↔ ∃ items, Item.scan {} args = .ok items ∧ Composes items r := by
  rw [ofArguments, bind_eq_ok_iff]
  refine exists_congr fun items ↦ and_congr_right fun _ ↦ ?_
  rw [← ofItems?_eq_some_iff]
  cases ofItems? items with
  | none => exact ⟨nofun, nofun⟩
  | some r' =>
    constructor <;> intro h <;> cases h <;> rfl

/-- What may be given once has not been given before. -/
theorem Composes.not_mem_of_unrepeated {front back : List Item} {item : Item} {r : Request}
    (h : Composes (front ++ item :: back) r) (hitem : item ∈ unrepeated) : item ∉ front := by
  intro hmem
  have honce := h.once item hitem
  have hpos := List.count_pos_iff.2 hmem
  rw [List.count_append, List.count_cons_self] at honce
  omega

/-! ### Another text for a value -/

section Revalue

variable {r : Request} {front back : List Item} {x : Setting} (a b : String)

theorem count_revalue {item : Item} (h : item ∈ unrepeated) :
    (front ++ .value x b :: back).count item = (front ++ .value x a :: back).count item := by
  have hne : ∀ text, Item.value x text ≠ item := by
    rintro text rfl
    simp [unrepeated] at h
  rw [List.count_append, List.count_append, List.count_cons_of_ne (hne b),
    List.count_cons_of_ne (hne a)]

theorem contains_revalue (s : Switch) :
    (front ++ .value x b :: back).contains (.switch s) =
      (front ++ .value x a :: back).contains (.switch s) := by
  simp

theorem mode?_revalue :
    mode? (front ++ .value x b :: back) = mode? (front ++ .value x a :: back) := by
  rw [mode?, contains_revalue a b, contains_revalue a b, mode?]

theorem path_revalue :
    (front ++ .value x b :: back).findSome? Item.path? =
      (front ++ .value x a :: back).findSome? Item.path? := by
  rw [List.findSome?_append, List.findSome?_append]
  rfl

theorem values_revalue_of_ne {y : Setting} (h : x ≠ y) :
    values (front ++ .value x b :: back) y = values (front ++ .value x a :: back) y := by
  simp [values, h]

theorem values_revalue_self :
    values (front ++ .value x a :: back) x = values front x ++ a :: values back x := by
  simp [values]

variable {a b}

/-- **Another text for the view or for an input changes the view or the inputs**, and no more of the
request. -/
theorem Composes.revalue (h : Composes (front ++ .value x a :: back) r)
    (hx : x = .state ∨ x = .inputs) {v : View}
    (hview : View.ofName? ((values (front ++ .value x b :: back) .state).headD "none") = some v) :
    Composes (front ++ .value x b :: back)
      { r with view := v, inputs := values (front ++ .value x b :: back) .inputs } := by
  have hother : ∀ y : Setting, y ≠ .state → y ≠ .inputs →
      values (front ++ .value x b :: back) y = values (front ++ .value x a :: back) y := by
    intro y hstate hinputs
    refine values_revalue_of_ne a b ?_
    rintro rfl
    exact hx.elim hstate hinputs
  exact {
    once := fun item hitem ↦ by
      rw [count_revalue a b hitem]
      exact h.once item hitem
    given := fun s hs hmem ↦ by
      rcases eq_or_ne x s with rfl | hne
      · rw [values_revalue_self]
        simp
      · rw [values_revalue_of_ne a b hne]
        exact h.given s hs (by simpa using hmem)
    path_eq := (path_revalue a b).trans h.path_eq
    mode_eq := (mode?_revalue a b).trans h.mode_eq
    view_eq := hview
    memory_eq := (congrArg (List.headD · "32") (hother .memory nofun nofun)).trans h.memory_eq
    inputs_eq := rfl
    output_eq := (congrArg List.head? (hother .output nofun nofun)).trans h.output_eq
    entry_eq := (congrArg (List.headD · "_start") (hother .entry nofun nofun)).trans h.entry_eq
    comments_eq := (contains_revalue a b _).trans h.comments_eq
    listing_eq := (contains_revalue a b _).trans h.listing_eq }

end Revalue

/-! ### A view in a request -/

variable {before after : List String} {v₀ : View} {r : Request}

/-- **A view is the value of its setting, or an input**, and what is around it is scanned without
regard to it. -/
theorem scan_arguments_cases {items : List Item}
    (h : Item.scan {} (v₀.arguments before after) = .ok items) :
    (∃ front back, (∀ x, .setting x ∉ front → values front x = []) ∧
      ∀ v : View, Item.scan {} (v.arguments before after) =
        .ok (front ++ .setting .state :: .value .state v.name :: back)) ∨
    ∃ front back, ∀ v : View, Item.scan {} (v.arguments before after) =
        .ok (front ++ .value .inputs "-s" :: .value .inputs v.name :: back) := by
  rw [View.arguments, List.append_assoc] at h
  obtain ⟨front, s, _, hbefore, h, -⟩ := Stance.scan_append_eq_ok_iff.1 h
  obtain ⟨_, t, back, hview, hafter, -⟩ := Stance.scan_append_eq_ok_iff.1 h
  have hscan : ∀ {v : View} {middle u}, s.Scans ["-s", v.name] middle u →
      Item.scan u after = .ok back →
        Item.scan {} (v.arguments before after) = .ok (front ++ (middle ++ back)) := by
    intro v middle u hmiddle hback
    rw [View.arguments, List.append_assoc]
    exact Stance.scan_append_eq_ok_iff.2 ⟨front, s, _, hbefore,
      Stance.scan_append_eq_ok_iff.2 ⟨middle, u, back, hmiddle, hback, rfl⟩, rfl⟩
  cases hpaths : s.pathsOnly with
  | true => exact absurd hview (Stance.not_scans_of_pathsOnly hpaths)
  | false =>
    by_cases hawaiting : s.awaiting = .value .inputs
    · have hmiddle (v : View) := Stance.scans_inputs hpaths hawaiting "-s" v.name
      obtain ⟨-, rfl⟩ := hview.unique (hmiddle v₀)
      exact .inr ⟨front, back, fun v ↦ hscan (hmiddle v) hafter⟩
    · have hmiddle (v : View) := Stance.scans_view hpaths hawaiting v
      obtain ⟨-, rfl⟩ := hview.unique (hmiddle v₀)
      refine .inl ⟨front, back, fun x hx ↦ ?_, fun v ↦ hscan (hmiddle v) hafter⟩
      exact (hbefore.named (show Awaiting.nothing ≠ .value x from nofun) hx).1

/-- **A request with another view**: it is the same but for the view, or the view is among the
inputs, after one that is no number. -/
theorem ofArguments_arguments_cases (h : ofArguments (v₀.arguments before after) = .ok r) :
    (∀ v : View, ofArguments (v.arguments before after) = .ok { r with view := v }) ∨
      ∃ front back, ∀ v : View, ofArguments (v.arguments before after) =
        .ok { r with inputs := front ++ "-s" :: v.name :: back } := by
  obtain ⟨items, hitems, hr⟩ := ofArguments_eq_ok_iff.1 h
  rcases scan_arguments_cases hitems with ⟨front, back, hfront, hscan⟩ | ⟨front, back, hscan⟩
  · left
    obtain rfl := Except.ok.inj (hitems.symm.trans (hscan v₀))
    have hnot := hr.not_mem_of_unrepeated (by decide)
    have hvalues : ∀ v : View,
        values ((front ++ [.setting .state]) ++ .value .state v.name :: back) .state =
          v.name :: values back .state := by
      intro v
      rw [values_revalue_self, values_append, hfront _ hnot]
      rfl
    intro v
    refine ofArguments_eq_ok_iff.2 ⟨_, hscan v, ?_⟩
    rw [List.append_cons] at hr ⊢
    have h := hr.revalue (b := v.name) (v := v) (.inl rfl) (by rw [hvalues]; exact v.ofName?_name)
    rwa [values_revalue_of_ne v₀.name v.name (show Setting.state ≠ .inputs by decide),
      hr.inputs_eq] at h
  · right
    obtain rfl := Except.ok.inj (hitems.symm.trans (hscan v₀))
    refine ⟨values front .inputs, values back .inputs, fun v ↦ ?_⟩
    refine ofArguments_eq_ok_iff.2 ⟨_, hscan v, ?_⟩
    rw [List.append_cons] at hr ⊢
    have hview := hr.view_eq
    rw [← values_revalue_of_ne v₀.name v.name (show Setting.inputs ≠ .state by decide)] at hview
    have h := hr.revalue (.inr rfl) hview
    rw [values_revalue_self, values_append, List.append_assoc (values front _)] at h
    exact h

/-! ### What is planned -/

/-- An input that is no number is a fault, whatever comes after it. -/
theorem exists_mapM_readInput_eq_error (front : List String) :
    ∃ message, ∀ rest, (front ++ "-s" :: rest).mapM readInput = .error message := by
  obtain ⟨fault, hdash⟩ : ∃ fault, readInput "-s" = .error fault := ⟨_, rfl⟩
  rcases hfront : front.mapM readInput with message | cells
  · refine ⟨message, fun rest ↦ ?_⟩
    rw [List.mapM_append, hfront]
    rfl
  · refine ⟨fault, fun rest ↦ ?_⟩
    rw [List.mapM_append, List.mapM_cons, hfront, hdash]
    rfl

/-- With inputs at fault, nothing is judged that the view or the inputs after them have a part in.
-/
theorem judge_of_inputs_error {message : String} {content : Except String ByteArray}
    (h : r.inputs.mapM readInput = .error message) :
    r.judge content = (r.source content >>= fun _ ↦ r.cells >>= fun _ ↦ .error message) := by
  rw [judge, h]
  rfl

/-- **Plans of requests with different views.** The requests are the same but for the view, or they
all plan the same failure. -/
theorem plan_arguments_cases (h : ofArguments (v₀.arguments before after) = .ok r) :
    (∀ v : View, ofArguments (v.arguments before after) = .ok { r with view := v }) ∨
      ∃ message : Except String ByteArray → String, ∀ v : View, ∃ r',
        ofArguments (v.arguments before after) = .ok r' ∧ r'.path = r.path ∧
          ∀ content, r'.plan content = ⟨"", .fail (message content)⟩ := by
  refine (ofArguments_arguments_cases h).imp id ?_
  rintro ⟨front, back, hinputs⟩
  obtain ⟨fault, hfault⟩ := exists_mapM_readInput_eq_error front
  -- The judgement of the source and of the memory size is the same for all of them.
  have hjudge : ∀ content, ∃ message, ∀ v : View,
      judge { r with inputs := front ++ "-s" :: v.name :: back } content = .error message := by
    intro content
    rcases hmessage : (r.source content >>= fun _ ↦ r.cells >>= fun _ ↦
      (.error fault : Except String (Program × Setup))) with message | judged
    · exact ⟨message, fun v ↦ (judge_of_inputs_error (hfault _)).trans hmessage⟩
    · obtain ⟨_, -, hmessage⟩ := bind_eq_ok_iff.1 hmessage
      obtain ⟨_, -, hmessage⟩ := bind_eq_ok_iff.1 hmessage
      cases hmessage
  choose message hmessage using hjudge
  exact ⟨message, fun v ↦
    ⟨_, hinputs v, rfl, fun content ↦ plan_of_judge_error (hmessage content v)⟩⟩

end Request

end CursorMachine.CommandLine
