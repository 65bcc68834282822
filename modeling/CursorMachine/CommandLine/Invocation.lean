import CursorMachine.Arm.Lowering
import CursorMachine.CommandLine.Decimal
import CursorMachine.CommandLine.FileTree
import CursorMachine.CommandLine.Interpretation
import CursorMachine.CommandLine.Listing

/-!
# Invocations

What the command does, from its arguments to its exit status.

`Request.plan` decides everything that can be decided once the program file has been read: what to
show, and then whether to fail, to show assembly or write it to a file, or to interpret. The order
in which faults are met is the order of the plan: the file, the memory size, the inputs, the text of
the program; then the listing is shown; then the machine is prepared and the program is compiled or
interpreted.

`run?` carries out a plan on a file tree. A program need not stop, so the steps of an interpretation
are limited by fuel, and `none` means that the fuel did not suffice.
-/

namespace CursorMachine.CommandLine

/-! ### Plans -/

/-- How an invocation ends. -/
inductive Ending where
  | success
  | failure (message : String)
  /-- The arguments do not fit together. -/
  | usage
  deriving DecidableEq, Repr

/-- The exit status. -/
def Ending.status : Ending → UInt8
  | .success => 0
  | .failure _ | .usage => 1

/-- What is left to do once the program file has been read. -/
inductive Task where
  | finish
  | fail (message : String)
  | write (path text : String)
  | interpret {size : Nat} (i : Interpretation size)

/-- What to show, and what to do then. -/
structure Plan where
  shown : String
  task : Task

namespace Request

/-- The text of a program file, or what is wrong with it. -/
def source (r : Request) (content : Except String ByteArray) : Except String String :=
  let unreadable (reason : String) := s!"unable to open input file `{r.path}`: {reason}"
  match content with
  | .error reason => .error (unreadable reason)
  | .ok bytes =>
    match String.fromUTF8? bytes with
    | some text => .ok text
    | none => .error (unreadable "stream did not contain valid UTF-8")

/-- The memory size that is asked for. -/
def cells (r : Request) : Except String Nat :=
  match Decimal.read Decimal.sizes r.memory with
  | .ok n => .ok n.toNat
  | .error fault => .error s!"invalid memory size: {fault.message}"

/-- Reads the value of one input. -/
def readInput (text : String) : Except String Cell :=
  match Decimal.read Decimal.cellValues text with
  | .ok n => .ok (Int32.ofInt n)
  | .error fault => .error s!"invalid input value `{text}`: {fault.message}"

/-- The program in a text. -/
def program (r : Request) (text : String) : Except String Program :=
  (Program.ofText text).mapError fun e ↦ s!"syntax error in `{r.path}`: {e.message}"

/-- Where assembly goes: to a file, or to where everything else is shown. Without a name the file
lies beside the program. -/
def destination (r : Request) : Option String :=
  match r.output with
  | some "-" => none
  | some path => some path
  | none => some (Path.withExtension r.path "s")

/-- What to do with a program, set up in this way. -/
def task (r : Request) (p : Program) (setup : Setup) : String × Task :=
  match Machine.prepare p setup with
  | .error e => ("", .fail e.message)
  | .ok machine =>
    match r.mode with
    | .interpret => ("", .interpret { view := r.view, session := { program := p, machine } })
    | .compile =>
      match Arm.generate p machine.layout ⟨r.entry, r.comments⟩ setup.inputs with
      | .error e => ("", .fail e.message)
      | .ok lines =>
        match r.destination with
        | some path => ("", .write path (Arm.text lines))
        | none => (Arm.text lines, .finish)

/-- What to do when the program file has this content, or cannot be read for this reason. -/
def plan (r : Request) (content : Except String ByteArray) : Plan :=
  let judged : Except String (Program × Setup) := do
    let text ← r.source content
    let cells ← r.cells
    let inputs ← r.inputs.mapM readInput
    return (← r.program text, { cells, inputs })
  match judged with
  | .error message => ⟨"", .fail message⟩
  | .ok (p, setup) =>
    let (shown, task) := r.task p setup
    ⟨(if r.listing then CommandLine.listing p else "") ++ shown, task⟩

end Request

/-- The wording of a fault in creating an output file. -/
def uncreatable (path reason : String) : String :=
  s!"unable to open output file `{path}`: {reason}"

/-- The wording of a fault in writing to an output file. -/
def unwritable (path reason : String) : String :=
  s!"unable to write to output file `{path}`: {reason}"

/-- What is shown when the version is asked for. -/
def versionText : String := "hra 0.1.0\n"

/-- What is shown when help is asked for. -/
def helpText : String :=
  "hra 0.1.0\n\n" ++
  "USAGE:\n    hra [FLAGS] [OPTIONS] <INPUT> <--interpret|--compile>\n\n" ++
  "FLAGS:\n" ++
  "    -c, --compile      compile the program to ARM assembly\n" ++
  "        --comments     annotate the generated assembly with the source lines\n" ++
  "    -h, --help         Prints help information\n" ++
  "    -t, --interpret    run the program with the interpreter\n" ++
  "    -d                 prints the parsed program to STDOUT\n" ++
  "    -V, --version      Prints version information\n" ++
  "    -v                 Sets the level of verbosity\n\n" ++
  "OPTIONS:\n" ++
  "    -e, --entry <entry>        entry label of the generated assembly [default: _start]\n" ++
  "    -i, --input <VALUES>...    initial memory values, in memory order\n" ++
  "    -m, --memsize <SIZE>       Allocate the size of the memory [default: 32]\n" ++
  "    -o, --output <output>      write assembly to an outfile, `-` for STDOUT\n" ++
  "    -s, --state <state>        print the machine state while interpreting [default: none]\n" ++
  "                               [possible values: final, all, none]\n\n" ++
  "ARGS:\n    <INPUT>    Sets the program file to use\n"

/-! ### Carrying out -/

/-- What an invocation shows, how it ends, and the files it leaves. -/
structure Outcome where
  shown : String
  ending : Ending
  files : FileTree
  deriving DecidableEq

/-- What an interpretation shows after what is shown already, and how it ends. -/
def Interpretation.run? {size : Nat} :
    Nat → String → Interpretation size → Option (String × Ending)
  | 0, _, _ => none
  | fuel + 1, shown, i =>
    match i.advance with
    | .failed message => some (shown, .failure message)
    | .stopped more => some (shown ++ more, .success)
    | .more more rest => run? fuel (shown ++ more) rest

/-- Carries out a plan. -/
def Plan.run? (fuel : Nat) (files : FileTree) (working : Location) (plan : Plan) :
    Option Outcome :=
  match plan.task with
  | .finish => some ⟨plan.shown, .success, files⟩
  | .fail message => some ⟨plan.shown, .failure message, files⟩
  | .write path text =>
    match files.target working path with
    | .error fault => some ⟨plan.shown, .failure (uncreatable path fault.message), files⟩
    | .ok location =>
      match files.fill location text with
      | .error fault => some ⟨plan.shown, .failure (unwritable path fault.message), files⟩
      | .ok (files, more) => some ⟨plan.shown ++ more, .success, files⟩
  | .interpret i =>
    (i.run? fuel plan.shown).map fun (shown, ending) ↦ ⟨shown, ending, files⟩

/-- What comes of the arguments, from a working directory in a file tree. -/
def run? (fuel : Nat) (files : FileTree) (working : Location) (args : List String) :
    Option Outcome :=
  match Request.ofArguments args with
  | .error .usage => some ⟨"", .usage, files⟩
  | .error .help => some ⟨helpText, .success, files⟩
  | .error .version => some ⟨versionText, .success, files⟩
  | .ok request =>
    let content := (files.read working request.path).mapError FileFault.message
    (request.plan content).run? fuel files working

end CursorMachine.CommandLine
