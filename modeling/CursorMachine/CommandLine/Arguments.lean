/-!
# Arguments

What a list of arguments asks for. Reading goes in two passes.

`Item.scan` goes through the arguments from left to right and says what each one is: a *switch*, a
*setting* with or without its value, or the path of the program.

* `--name`, `--name=value` and `--name value` give a setting its value; a switch ignores one.
* `-x` is short for a name; several short switches may share a dash, and a short setting takes what
  is left of the argument as its value, or the next argument when nothing is left.
* An argument that starts with a dash ends the wait for a value, except that `--input` takes
  everything that follows, dashes or not. After `--input=value` it takes no more.
* `--` by itself makes everything after it a path, also another `--`. A dash by itself is no switch.
* Extra equals signs before a value are dropped.

An unknown name and a second path stop the scan; so do the switches that ask for help and for the
version, at once.

`Request.ofItems?` then judges the items together. A setting or a switch may be given once, except
that inputs add up and that `-v` repeats. One of the two modes is given, and the path. Settings that
are given without a value fall back to what they are when not given, where there is such a value.
-/

namespace CursorMachine.CommandLine

/-! ### What an argument can be -/

/-- What is on when it is given. -/
inductive Switch where
  | verbose
  | interpret
  | compile
  | comments
  | listing
  deriving DecidableEq, Repr

/-- What is given with a value. -/
inductive Setting where
  | memory
  | inputs
  | state
  | output
  | entry
  deriving DecidableEq, Repr

/-- Why there is nothing to run. -/
inductive Stop where
  /-- The arguments do not fit together. -/
  | usage
  /-- Help is asked for. -/
  | help
  /-- The version is asked for. -/
  | version
  deriving DecidableEq, Repr

/-- What a name stands for. -/
inductive Meaning where
  | switch (s : Switch)
  | setting (s : Setting)
  | stop (s : Stop)
  deriving DecidableEq, Repr

/-- The long names. -/
def longNames : List (String × Meaning) :=
  [("interpret", .switch .interpret), ("compile", .switch .compile),
    ("comments", .switch .comments), ("memsize", .setting .memory), ("input", .setting .inputs),
    ("state", .setting .state), ("output", .setting .output), ("entry", .setting .entry),
    ("help", .stop .help), ("version", .stop .version)]

/-- The short names. -/
def shortNames : List (Char × Meaning) :=
  [('v', .switch .verbose), ('t', .switch .interpret), ('c', .switch .compile),
    ('d', .switch .listing), ('m', .setting .memory), ('i', .setting .inputs),
    ('s', .setting .state), ('o', .setting .output), ('e', .setting .entry), ('h', .stop .help),
    ('V', .stop .version)]

/-- What the arguments say, piece by piece. -/
inductive Item where
  | switch (s : Switch)
  | setting (s : Setting)
  | value (s : Setting) (text : String)
  | path (text : String)
  deriving DecidableEq, Repr

/-! ### Scanning -/

/-- What the next argument may be. -/
inductive Awaiting where
  /-- No value is awaited. -/
  | nothing
  /-- The latest setting has its value. -/
  | satisfied
  /-- A setting awaits a value, or one more. -/
  | value (s : Setting)
  deriving DecidableEq, Repr

/-- Items of one argument, and what is awaited after it. -/
abbrev Scanned := Except Stop (List Item × Awaiting)

/-- The argument cannot be the value that is awaited. -/
def Awaiting.refuses (w : Awaiting) (arg : List Char) : Bool :=
  match w, arg with
  | .satisfied, _ => true
  | .value .inputs, _ => false
  | _, '-' :: _ :: _ => true
  | _, _ => false

/-- What is awaited after a setting has been given a value. -/
def Awaiting.afterValue : Setting → Awaiting
  | .inputs => .value .inputs
  | _ => .satisfied

/-- The items of a setting with the value attached to it. Inputs with an equals sign are
complete. -/
def scanAttached (s : Setting) (equals : Bool) (text : List Char) : List Item × Awaiting :=
  ([.setting s, .value s (String.ofList (text.dropWhile (· == '=')))],
    if equals then .satisfied else .afterValue s)

/-- Scans what follows two dashes. -/
def scanLong (arg : List Char) : Scanned :=
  let arg := arg.dropWhile (· == '-')
  let name := String.ofList (arg.takeWhile (· != '='))
  match longNames.lookup name, arg.dropWhile (· != '=') with
  | none, _ => .error .usage
  | some (.stop s), _ => .error s
  | some (.switch s), _ => .ok ([.switch s], .nothing)
  | some (.setting s), [] => .ok ([.setting s], .value s)
  | some (.setting s), text => .ok (scanAttached s true text)

/-- Scans the letters that follow a single dash. -/
def scanShort : List Char → Scanned
  | [] => .ok ([], .nothing)
  | c :: rest =>
    match shortNames.lookup c with
    | none => .error .usage
    | some (.stop s) => .error s
    | some (.switch s) => (scanShort rest).map fun (items, w) ↦ (.switch s :: items, w)
    | some (.setting s) =>
      match rest with
      | [] => .ok ([.setting s], .value s)
      | '=' :: _ => .ok (scanAttached s true rest)
      | _ => .ok (scanAttached s false rest)

/-- Where a scan stands between two arguments. -/
structure Stance where
  awaiting : Awaiting := .nothing
  /-- Two dashes have come by themselves, so what follows are paths. -/
  pathsOnly : Bool := false
  /-- The path has come. -/
  hasPath : Bool := false
  deriving DecidableEq, Repr

namespace Stance

/-- Takes an argument as the path. -/
def takePath (s : Stance) (arg : String) : Except Stop (List Item × Stance) :=
  if s.hasPath then .error .usage else .ok ([.path arg], { s with hasPath := true })

/-- Goes on from the items of an argument that starts with a dash. -/
def after (s : Stance) (scanned : Scanned) : Except Stop (List Item × Stance) :=
  scanned.map fun (items, awaiting) ↦ (items, { s with awaiting })

/-- Scans one argument. -/
def push (s : Stance) (arg : String) : Except Stop (List Item × Stance) :=
  let refused := s.awaiting.refuses arg.toList
  if s.pathsOnly then s.takePath arg
  else if refused && arg == "--" then .ok ([], { s with pathsOnly := true })
  else if refused then
    match arg.toList with
    | '-' :: '-' :: cs => s.after (scanLong cs)
    | '-' :: c :: cs => s.after (scanShort (c :: cs))
    | _ => s.takePath arg
  else
    match s.awaiting with
    | .value t => .ok ([.value t arg], { s with awaiting := .afterValue t })
    | _ => s.takePath arg

end Stance

/-- Scans arguments, one after the other. -/
def Item.scan (s : Stance) : List String → Except Stop (List Item)
  | [] => .ok []
  | arg :: args => do
    let (items, s) ← s.push arg
    return items ++ (← scan s args)

/-! ### Requests -/

/-- What to do with the program. -/
inductive Mode where
  | interpret
  | compile
  deriving DecidableEq, Repr

/-- Which machines to show while interpreting. -/
inductive View where
  | none
  | final
  | all
  deriving DecidableEq, Repr

/-- What the arguments ask for. Numbers are still texts: they are judged after the program file has
been read. -/
structure Request where
  path : String
  mode : Mode
  memory : String
  inputs : List String
  view : View
  output : Option String
  entry : String
  comments : Bool
  listing : Bool
  deriving DecidableEq, Repr

/-- The view of a name. -/
def View.ofName? : String → Option View
  | "none" => some .none
  | "final" => some .final
  | "all" => some .all
  | _ => .none

namespace Request

/-- The values given to a setting. -/
def values (items : List Item) (s : Setting) : List String :=
  items.filterMap fun
    | .value t text => if t = s then some text else none
    | _ => none

/-- What may be given at most once. -/
def unrepeated : List Item :=
  [.switch .interpret, .switch .compile, .switch .comments, .switch .listing, .setting .memory,
    .setting .state, .setting .output, .setting .entry]

/-- The request that items make up together. -/
def ofItems? (items : List Item) : Option Request := do
  guard (unrepeated.all fun item ↦ items.count item ≤ 1)
  guard ([Setting.inputs, Setting.output].all fun s ↦
    !items.contains (.setting s) || !(values items s).isEmpty)
  let path ← items.findSome? fun
    | .path text => some text
    | _ => none
  let mode ← match items.contains (.switch .interpret), items.contains (.switch .compile) with
    | true, false => some Mode.interpret
    | false, true => some Mode.compile
    | _, _ => none
  let view ← View.ofName? ((values items .state).headD "none")
  return {
    path, mode, view
    memory := (values items .memory).headD "32"
    inputs := values items .inputs
    output := (values items .output).head?
    entry := (values items .entry).headD "_start"
    comments := items.contains (.switch .comments)
    listing := items.contains (.switch .listing) }

/-- Reads the arguments. -/
def ofArguments (args : List String) : Except Stop Request := do
  match ofItems? (← Item.scan {} args) with
  | some request => return request
  | none => throw .usage

end Request

end CursorMachine.CommandLine
