import CursorMachine.Proofs.Reading.Literals

/-!
# Parameters and their verdicts

What every keyword asks of its parameters, said apart from the readers of
`Instruction/Decode.lean`. A `Parameter` is what is asked in one place, and has a verdict on every
text: the datum that the text stands for (`Parameter.Takes`), or the error that it is refused with
(`Parameter.Refuses`). A `Keyword` has a list of them. It judges the number of texts first, and then
the texts from left to right (`Keyword.Reads`, `Keyword.Refuses`); an omitted amount counts as the
text `1`.

Reading gives just these verdicts (`Instruction.decode_eq_iff_parameters`). Only one direction needs
the cases of the reader, that its results are verdicts (`Keyword.Decides`). The other one rests on
verdicts being unique: no text is both taken and refused, nor taken or refused in two ways.
-/

namespace CursorMachine

/-! ### What a parameter is asked to be -/

/-- What a text stands for as a parameter. -/
inductive Datum where
  | number (n : Int)
  | name (s : String)
  deriving DecidableEq, Repr

/-- What is asked of a parameter. -/
inductive Parameter where
  /-- An address or a line. -/
  | address
  /-- What a cell can hold. -/
  | value
  /-- The amount of an update. -/
  | valueAmount
  /-- The amount of a move. -/
  | moveAmount
  | functionName
  deriving DecidableEq, Repr

/-- The text is a literal that denotes the number, within 64 bits. -/
def Text.Numeral.Denotes (text : String) (n : Int) : Prop :=
  ∃ l : Literal, l.text = text ∧ l.magnitude < 2 ^ 63 ∧ l.value = n

namespace Parameter

open Text.Numeral (Denotes)

/-- The integers that a parameter has room for. -/
def HasRoom (n : Int) : Parameter → Prop
  | .address => 0 ≤ n ∧ n < 2 ^ 63
  | .value | .valueAmount => -2 ^ 31 ≤ n ∧ n < 2 ^ 31
  | .moveAmount => -2 ^ 63 < n ∧ n < 2 ^ 63
  | .functionName => False

/-- The parameter says how much, so it must be one at least. -/
def IsAmount : Parameter → Prop
  | .valueAmount | .moveAmount => True
  | .address | .value | .functionName => False

/-- The text is what is asked, and stands for this datum. -/
inductive Takes (text : String) : Parameter → Datum → Prop where
  | number {p : Parameter} {n : Int} (h : Denotes text n) (hroom : p.HasRoom n)
      (hamount : p.IsAmount → 1 ≤ n) : Takes text p (.number n)
  | name (h : Text.isIdentifier text = true) : Takes text .functionName (.name text)

/-- The text is not what is asked, for this reason. A number that there is no room for is blamed as
a number even where it is no amount either. -/
inductive Refuses (line : Nat) (text : String) : Parameter → Error → Prop where
  | number {p : Parameter} (hp : p ≠ .functionName) (h : ∀ n, Denotes text n → ¬p.HasRoom n) :
      Refuses line text p (.invalidNumber line text)
  | amount {p : Parameter} {n : Int} (h : Denotes text n) (hroom : p.HasRoom n)
      (hp : p.IsAmount) (hn : n < 1) : Refuses line text p (.invalidAmount line n)
  | name (h : Text.isIdentifier text = false) :
      Refuses line text .functionName (.invalidFunctionName line text)

/-- Each text is what is asked in its place, and they stand for these data. -/
inductive AllTaken : List Parameter → List String → List Datum → Prop where
  | nil : AllTaken [] [] []
  | cons {p : Parameter} {text : String} {v : Datum} {ps : List Parameter} {texts : List String}
      {vs : List Datum} (h : p.Takes text v) (hs : AllTaken ps texts vs) :
      AllTaken (p :: ps) (text :: texts) (v :: vs)

/-- The first text that is not what is asked in its place is refused with this error. -/
inductive FirstRefused (line : Nat) : List Parameter → List String → Error → Prop where
  | here {p : Parameter} {text : String} {e : Error} (ps : List Parameter) (texts : List String)
      (h : p.Refuses line text e) : FirstRefused line (p :: ps) (text :: texts) e
  | later {p : Parameter} {text : String} {v : Datum} {ps : List Parameter} {texts : List String}
      {e : Error} (h : p.Takes text v) (hs : FirstRefused line ps texts e) :
      FirstRefused line (p :: ps) (text :: texts) e

end Parameter

/-! ### What a keyword asks for -/

namespace Keyword

/-- What is asked of the parameters of a keyword, in order. -/
def parameters : Keyword → List Parameter
  | .moveBy _ | .jumpBy _ => [.moveAmount]
  | .moveTo | .copyTo | .jumpTo => [.address]
  | .function | .call => [.functionName]
  | .compare _ => [.address, .address]
  | .set => [.value]
  | .update _ => [.valueAmount]
  | .print | .close | .exit => []

/-- The parameters with an omitted amount of a move, which is one. -/
def completed : Keyword → List String → List String
  | .moveBy _, [] | .jumpBy _, [] => ["1"]
  | _, params => params

end Keyword

/-- The operands of an instruction, in the order in which they are written. -/
def Instruction.data : Instruction → List Datum
  | .moveBy _ n | .jumpBy _ n => [.number n]
  | .moveTo a | .copyTo a => [.number a]
  | .jumpTo line => [.number line]
  | .function name | .call name => [.name name]
  | .compare _ a b => [.number a, .number b]
  | .set v | .update _ v => [.number v.toInt]
  | .print | .close | .exit => []

namespace Keyword

/-- The instruction is the one that the keyword makes of these parameters. -/
structure Reads (k : Keyword) (params : List String) (i : Instruction) : Prop where
  accepts : k.arity.accepts params.length = true
  keyword_eq : i.keyword = k
  allTaken : Parameter.AllTaken k.parameters (k.completed params) i.data

/-- The keyword on a line refuses these parameters with an error: for their number, or else for the
first of them that is not what is asked. -/
inductive Refuses (k : Keyword) (line : Nat) (params : List String) : Error → Prop where
  | count (h : k.arity.accepts params.length = false) :
      Refuses k line params (.parameterCount line k.arity params)
  | parameter {e : Error} (h : k.arity.accepts params.length = true)
      (hfirst : Parameter.FirstRefused line k.parameters (k.completed params) e) :
      Refuses k line params e

end Keyword

/-! ### Verdicts are unique -/

/-- An instruction is made up of its keyword and its operands. -/
theorem Instruction.eq_of_data_eq {i j : Instruction} (hkeyword : i.keyword = j.keyword)
    (hdata : i.data = j.data) : i = j := by
  cases i <;> cases j <;> cases hkeyword <;>
    first
    | rfl
    | simpa [Instruction.data, Int32.toInt_inj] using hdata

namespace Parameter

open Text.Numeral (Denotes)

variable {line : Nat} {text : String} {p : Parameter} {v v' : Datum} {e e' : Error}

theorem denotes_iff {n : Int} : Denotes text n ↔ Text.Numeral.read? text = some n := by
  rw [Text.Numeral.read?_eq_some_iff_literal]
  exact exists_congr fun l ↦ and_congr_right' (and_congr_left' Nat.lt_succ_iff)

theorem eq_of_denotes {n n' : Int} (h : Denotes text n) (h' : Denotes text n') : n = n' :=
  Option.some.inj ((denotes_iff.1 h).symm.trans (denotes_iff.1 h'))

theorem Takes.unique (h : p.Takes text v) (h' : p.Takes text v') : v = v' := by
  cases h with
  | number hn hroom =>
    cases h' with
    | number hn' => rw [eq_of_denotes hn hn']
    | name => exact hroom.elim
  | name =>
    cases h' with
    | number _ hroom => exact hroom.elim
    | name => rfl

theorem Takes.not_refuses (h : p.Takes text v) : ¬p.Refuses line text e := by
  intro h'
  cases h with
  | number hn hroom hamount =>
    cases h' with
    | number _ hnone => exact hnone _ hn hroom
    | amount hn' _ hp hlt =>
      obtain rfl := eq_of_denotes hn hn'
      exact absurd (hamount hp) (by omega)
    | name => exact hroom.elim
  | name hname =>
    cases h' with
    | number hp => exact hp rfl
    | amount _ hroom => exact hroom.elim
    | name hname' => exact Bool.false_ne_true (hname'.symm.trans hname)

theorem Refuses.unique (h : p.Refuses line text e) (h' : p.Refuses line text e') : e = e' := by
  cases h with
  | number hp hnone =>
    cases h' with
    | number => rfl
    | amount hn hroom => exact absurd hroom (hnone _ hn)
    | name => exact absurd rfl hp
  | amount hn hroom hp =>
    cases h' with
    | number _ hnone => exact absurd hroom (hnone _ hn)
    | amount hn' => rw [eq_of_denotes hn hn']
    | name => exact hp.elim
  | name =>
    cases h' with
    | number hp => exact absurd rfl hp
    | amount _ hroom => exact hroom.elim
    | name => rfl

variable {ps : List Parameter} {texts : List String} {vs vs' : List Datum}

theorem AllTaken.unique (h : AllTaken ps texts vs) (h' : AllTaken ps texts vs') : vs = vs' := by
  induction h generalizing vs' with
  | nil =>
    cases h'
    rfl
  | cons hv _ ih =>
    cases h' with
    | cons hv' hvs' => rw [hv.unique hv', ih hvs']

/-- When every text is what is asked in its place, none is refused. -/
theorem not_firstRefused_of_forall₂ (h : List.Forall₂ (fun p text ↦ ∃ v, Takes text p v) ps texts) :
    ¬FirstRefused line ps texts e := by
  intro h'
  induction h' with
  | here ps texts hrefuses =>
    obtain ⟨⟨v, hv⟩, -⟩ := List.forall₂_cons.1 h
    exact hv.not_refuses hrefuses
  | later _ _ ih => exact ih (List.forall₂_cons.1 h).2

theorem AllTaken.forall₂ (h : AllTaken ps texts vs) :
    List.Forall₂ (fun p text ↦ ∃ v, Takes text p v) ps texts := by
  induction h with
  | nil => exact .nil
  | cons hv _ ih => exact .cons ⟨_, hv⟩ ih

theorem FirstRefused.unique (h : FirstRefused line ps texts e)
    (h' : FirstRefused line ps texts e') : e = e' := by
  induction h with
  | here ps texts hrefuses =>
    cases h' with
    | here _ _ hrefuses' => exact hrefuses.unique hrefuses'
    | later hv => exact absurd hrefuses hv.not_refuses
  | later hv _ ih =>
    cases h' with
    | here _ _ hrefuses => exact absurd hrefuses hv.not_refuses
    | later _ hs => exact ih hs

end Parameter

namespace Keyword

variable {k : Keyword} {line : Nat} {params : List String} {i j : Instruction} {e e' : Error}

theorem Reads.unique (h : k.Reads params i) (h' : k.Reads params j) : i = j :=
  Instruction.eq_of_data_eq (h.keyword_eq.trans h'.keyword_eq.symm)
    (h.allTaken.unique h'.allTaken)

theorem Refuses.not_reads (h : k.Refuses line params e) : ¬k.Reads params i := by
  intro hreads
  cases h with
  | count hcount => exact Bool.false_ne_true (hcount.symm.trans hreads.accepts)
  | parameter _ hfirst => exact Parameter.not_firstRefused_of_forall₂ hreads.allTaken.forall₂ hfirst

theorem Refuses.unique (h : k.Refuses line params e) (h' : k.Refuses line params e') : e = e' := by
  cases h with
  | count hcount =>
    cases h' with
    | count => rfl
    | parameter haccepts => exact absurd (hcount.symm.trans haccepts) Bool.false_ne_true
  | parameter haccepts hfirst =>
    cases h' with
    | count hcount => exact absurd (hcount.symm.trans haccepts) Bool.false_ne_true
    | parameter _ hfirst' => exact hfirst.unique hfirst'

end Keyword

/-! ### Readers give verdicts -/

/-- A reader gives a verdict of the parameter, on results that stand for data. -/
def Parameter.Decides {α : Type} (p : Parameter) (line : Nat) (text : String) (datum : α → Datum) :
    Except Error α → Prop
  | .ok a => p.Takes text (datum a)
  | .error e => p.Refuses line text e

/-- A reader gives a verdict of the keyword. -/
def Keyword.Decides (k : Keyword) (line : Nat) (params : List String) :
    Except Error Instruction → Prop
  | .ok i => k.Reads params i
  | .error e => k.Refuses line params e

namespace Instruction

open Text.Numeral (Denotes)

variable {text : String} {p : Parameter}

/-- A text that is no number is refused wherever a number is asked. -/
theorem refuses_of_not_denotes (line : Nat) (hp : p ≠ .functionName) (h : ∀ n, ¬Denotes text n) :
    p.Refuses line text (.invalidNumber line text) :=
  .number hp fun n hn ↦ absurd hn (h n)

/-- A number that there is no room for is refused as a number. -/
theorem refuses_of_not_hasRoom (line : Nat) (hp : p ≠ .functionName) {n : Int}
    (hn : Denotes text n) (h : ¬p.HasRoom n) : p.Refuses line text (.invalidNumber line text) :=
  .number hp fun _ hn' ↦ Parameter.eq_of_denotes hn hn' ▸ h

variable (line : Nat) (text : String)

theorem number_cases :
    (∃ n, number line text = .ok n ∧ Denotes text n ∧ -2 ^ 63 < n ∧ n < 2 ^ 63) ∨
      (number line text = .error (.invalidNumber line text) ∧ ∀ n, ¬Denotes text n) := by
  unfold number
  rcases hread : Text.Numeral.read? text with - | n
  · refine .inr ⟨rfl, fun n hn ↦ ?_⟩
    rw [Parameter.denotes_iff, hread] at hn
    cases hn
  · have hle := Text.Numeral.natAbs_le_of_read?_eq_some hread
    rw [Text.Numeral.maxMagnitude] at hle
    exact .inl ⟨n, rfl, Parameter.denotes_iff.2 hread, by omega, by omega⟩

theorem decides_address :
    Parameter.address.Decides line text (fun a : Nat ↦ .number a) (address line text) := by
  rcases number_cases line text with ⟨n, hn, hdenotes, -, hlt⟩ | ⟨hn, hnone⟩ <;> rw [address, hn]
  · show Parameter.Decides _ _ _ _ (if 0 ≤ n then _ else _)
    split
    next h =>
      have hcast : ((n.toNat : Nat) : Int) = n := Int.toNat_of_nonneg h
      rw [Parameter.Decides, hcast]
      exact .number hdenotes ⟨h, hlt⟩ False.elim
    next h => exact refuses_of_not_hasRoom line (by decide) hdenotes fun hroom ↦ h hroom.1
  · exact refuses_of_not_denotes line (by decide) hnone

theorem decides_value :
    Parameter.value.Decides line text (fun v : Cell ↦ .number v.toInt) (value line text) := by
  have hlow : Int32.minValue.toInt = -2 ^ 31 := rfl
  have hhigh : Int32.maxValue.toInt = 2 ^ 31 - 1 := rfl
  rcases number_cases line text with ⟨n, hn, hdenotes, -, -⟩ | ⟨hn, hnone⟩ <;> rw [value, hn]
  · show Parameter.Decides _ _ _ _ (if Int32.minValue.toInt ≤ n ∧ n ≤ Int32.maxValue.toInt
      then _ else _)
    split
    next h =>
      have hcast : (Int32.ofInt n).toInt = n := Int32.toInt_ofInt_of_le (by omega) (by omega)
      rw [Parameter.Decides, hcast]
      exact .number hdenotes ⟨by omega, by omega⟩ False.elim
    next h =>
      refine refuses_of_not_hasRoom line (by decide) hdenotes fun hroom ↦ h ?_
      exact ⟨hlow ▸ hroom.1, hhigh ▸ Int.le_sub_one_of_lt hroom.2⟩
  · exact refuses_of_not_denotes line (by decide) hnone

theorem decides_valueAmount :
    Parameter.valueAmount.Decides line text (fun v : Cell ↦ .number v.toInt)
      (valueAmount line text) := by
  have hvalue := decides_value line text
  rw [valueAmount]
  generalize value line text = x at hvalue ⊢
  rcases x with e | v
  · cases hvalue with
    | number _ hnone => exact .number (by decide) hnone
    | amount _ _ hp => exact hp.elim
  · show Parameter.Decides _ _ _ _ (if 1 ≤ v.toInt then _ else _)
    cases hvalue with
    | number hdenotes hroom =>
      split
      next h => exact .number hdenotes hroom fun _ ↦ h
      next h => exact .amount hdenotes hroom trivial (Int.not_le.1 h)

theorem decides_moveAmount :
    Parameter.moveAmount.Decides line text (fun n : Nat ↦ .number n) (moveAmount line text) := by
  rcases number_cases line text with ⟨n, hn, hdenotes, hgt, hlt⟩ | ⟨hn, hnone⟩ <;>
    rw [moveAmount, hn]
  · show Parameter.Decides _ _ _ _ (if 1 ≤ n then _ else _)
    split
    next h =>
      have hcast : ((n.toNat : Nat) : Int) = n := Int.toNat_of_nonneg (by omega)
      rw [Parameter.Decides, hcast]
      exact .number hdenotes ⟨hgt, hlt⟩ fun _ ↦ h
    next h => exact .amount hdenotes ⟨hgt, hlt⟩ trivial (Int.not_le.1 h)
  · exact refuses_of_not_denotes line (by decide) hnone

theorem decides_functionName :
    Parameter.functionName.Decides line text .name (functionName line text) := by
  rw [functionName]
  split
  next h => exact .name h
  next h => exact .name (Bool.eq_false_iff.2 h)

/-! ### Whole instructions -/

variable {k : Keyword}

/-- A keyword with one parameter decides as the reader of the parameter does. -/
theorem decides_of_parameter {α : Type} {x : Except Error α} {datum : α → Datum}
    {make : α → Instruction} (h : p.Decides line text datum x) (hk : k.parameters = [p])
    (haccepts : k.arity.accepts 1 = true) (hcompleted : k.completed [text] = [text])
    (hmake : ∀ a, (make a).keyword = k ∧ (make a).data = [datum a]) :
    k.Decides line [text] (x >>= fun a ↦ .ok (make a)) := by
  rcases x with e | a
  · refine .parameter haccepts ?_
    rw [hk, hcompleted]
    exact .here [] [] h
  · refine ⟨haccepts, (hmake a).1, ?_⟩
    rw [hk, hcompleted, (hmake a).2]
    exact .cons h .nil

/-- A keyword without a parameter, or with an omitted amount. -/
theorem decides_nil {i : Instruction} (haccepts : k.arity.accepts 0 = true) (hi : i.keyword = k)
    (h : Parameter.AllTaken k.parameters (k.completed []) i.data) :
    k.Decides line [] (.ok i) :=
  ⟨haccepts, hi, h⟩

/-- The text that stands for an omitted amount denotes one. -/
theorem takes_one : Parameter.moveAmount.Takes "1" (.number (1 : Nat)) := by
  have hone : Text.Numeral.read? (toString 1) = some ((1 : Nat) : Int) :=
    Text.Numeral.read?_toString_nat (by decide)
  exact .number (Parameter.denotes_iff.2 hone) ⟨by decide, by decide⟩ fun _ ↦ Int.le_refl _

/-- **Reading gives a verdict of the keyword.** -/
theorem decides_decode (k : Keyword) (line : Nat) (params : List String) :
    k.Decides line params (decode k line params) := by
  unfold decode
  split
  -- an omitted amount
  case h_1 | h_5 => exact decides_nil line rfl rfl (.cons takes_one .nil)
  -- no operand at all
  case h_8 | h_10 | h_12 => exact decides_nil line rfl rfl .nil
  -- the amount of a move
  case h_2 | h_6 =>
    exact decides_of_parameter line _ (decides_moveAmount line _) rfl rfl rfl fun _ ↦ ⟨rfl, rfl⟩
  -- an address or a line
  case h_3 | h_4 | h_7 =>
    exact decides_of_parameter line _ (decides_address line _) rfl rfl rfl fun _ ↦ ⟨rfl, rfl⟩
  -- the name of a function
  case h_9 | h_11 =>
    exact decides_of_parameter line _ (decides_functionName line _) rfl rfl rfl fun _ ↦ ⟨rfl, rfl⟩
  case h_13 r a b =>
    have ha := decides_address line a
    have hb := decides_address line b
    generalize address line a = x at ha ⊢
    generalize address line b = y at hb ⊢
    rcases x with e | x
    · exact .parameter rfl (.here _ _ ha)
    · rcases y with e | y
      · exact .parameter rfl (.later ha (.here _ _ hb))
      · exact ⟨rfl, rfl, .cons ha (.cons hb .nil)⟩
  case h_14 =>
    exact decides_of_parameter line _ (decides_value line _) rfl rfl rfl fun _ ↦ ⟨rfl, rfl⟩
  case h_15 =>
    exact decides_of_parameter line _ (decides_valueAmount line _) rfl rfl rfl fun _ ↦ ⟨rfl, rfl⟩
  -- the number of parameters is not allowed, or the case is one of those above
  case h_16 =>
    refine .count ?_
    rcases params with - | ⟨a, - | ⟨b, - | ⟨c, params⟩⟩⟩ <;> cases k <;>
      first
      | rfl
      | exfalso; solve_by_elim

/-- **What is read, and what is refused**, is decided by the keyword alone. -/
theorem decode_eq_ok_iff_reads {params : List String} {i : Instruction} :
    decode k line params = .ok i ↔ k.Reads params i := by
  have h := decides_decode k line params
  generalize decode k line params = x at h ⊢
  rcases x with e | j
  · simp only [reduceCtorEq, false_iff]
    exact h.not_reads
  · rw [Except.ok.injEq]
    exact ⟨fun heq ↦ heq ▸ h, h.unique⟩

theorem decode_eq_error_iff_refuses {params : List String} {e : Error} :
    decode k line params = .error e ↔ k.Refuses line params e := by
  have h := decides_decode k line params
  generalize decode k line params = x at h ⊢
  rcases x with e' | j
  · rw [Except.error.injEq]
    exact ⟨fun heq ↦ heq ▸ h, h.unique⟩
  · simp only [reduceCtorEq, false_iff]
    exact fun hrefuses ↦ hrefuses.not_reads h

/-- **A keyword reads exactly its parameter language.** Parameters are read just if their number is
allowed and each of them is what is asked in its place. The instruction then has the keyword and the
operands that they stand for, in order, where an omitted amount stands for one. All other parameters
are refused, on the line given: for their number, or else for the first of them that is not what is
asked. -/
theorem decode_eq_iff_parameters (k : Keyword) (line : Nat) (params : List String) :
    ((∃ i, decode k line params = .ok i) ↔
      k.arity.accepts params.length = true ∧
        List.Forall₂ (fun p text ↦ ∃ v, Parameter.Takes text p v) k.parameters
          (k.completed params)) ∧
    (∀ i, decode k line params = .ok i ↔
      k.arity.accepts params.length = true ∧ i.keyword = k ∧
        Parameter.AllTaken k.parameters (k.completed params) i.data) ∧
    ∀ e, decode k line params = .error e ↔
      (k.arity.accepts params.length = false ∧ e = .parameterCount line k.arity params) ∨
        (k.arity.accepts params.length = true ∧
          Parameter.FirstRefused line k.parameters (k.completed params) e) := by
  refine ⟨⟨?_, ?_⟩, fun i ↦ ?_, fun e ↦ ?_⟩
  · rintro ⟨i, hi⟩
    have hreads := (decode_eq_ok_iff_reads line).1 hi
    exact ⟨hreads.accepts, hreads.allTaken.forall₂⟩
  · rintro ⟨haccepts, htaken⟩
    rcases hdecode : decode k line params with e | i
    · cases (decode_eq_error_iff_refuses line).1 hdecode with
      | count hcount => exact absurd (hcount.symm.trans haccepts) Bool.false_ne_true
      | parameter _ hfirst => exact absurd hfirst (Parameter.not_firstRefused_of_forall₂ htaken)
    · exact ⟨i, rfl⟩
  · rw [decode_eq_ok_iff_reads]
    exact ⟨fun h ↦ ⟨h.accepts, h.keyword_eq, h.allTaken⟩, fun ⟨h₁, h₂, h₃⟩ ↦ ⟨h₁, h₂, h₃⟩⟩
  · rw [decode_eq_error_iff_refuses]
    constructor
    · intro h
      cases h with
      | count hcount => exact .inl ⟨hcount, rfl⟩
      | parameter haccepts hfirst => exact .inr ⟨haccepts, hfirst⟩
    · rintro (⟨hcount, rfl⟩ | ⟨haccepts, hfirst⟩)
      · exact .count hcount
      · exact .parameter haccepts hfirst

/-- The same numeral is an amount below one for a move and no number at all for an increment. -/
example : decode (.moveBy .backward) 3 ["-4294967296"] = .error (.invalidAmount 3 (-4294967296)) ∧
    decode (.update .add) 3 ["-4294967296"] = .error (.invalidNumber 3 "-4294967296") := by
  decide +kernel

end Instruction

end CursorMachine
