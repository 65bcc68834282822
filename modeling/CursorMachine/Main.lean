import CursorMachine.CommandLine.Invocation

/-!
# The command

Reads the program file, carries out the plan that `Request.plan` makes of it, and shows things as
they come. Everything is decided elsewhere; here files are read and written and texts are printed.
Failures are reported on the error stream.
-/

namespace CursorMachine.CommandLine

/-- The system's wording of a fault, with its number. -/
def systemReason : IO.Error → String
  | .alreadyExists _ code details | .otherError code details | .resourceBusy code details
  | .resourceVanished code details | .unsupportedOperation code details
  | .hardwareFault code details | .unsatisfiedConstraints code details
  | .illegalOperation code details | .protocolError code details | .timeExpired code details
  | .interrupted _ code details | .noFileOrDirectory _ code details
  | .invalidArgument _ code details | .permissionDenied _ code details
  | .resourceExhausted _ code details | .inappropriateType _ code details
  | .noSuchThing _ code details => s!"{details} (os error {code})"
  | .unexpectedEof => "unexpected end of file"
  | .userError message => message

/-- Reports an ending and gives its exit status. -/
def conclude (ending : Ending) : IO UInt32 := do
  match ending with
  | .success => pure ()
  | .failure message => IO.eprintln s!"fatal: {message}"
  | .usage => IO.eprintln "error: the arguments do not fit together; --help lists them"
  return ending.status.toUInt32

/-- Takes steps until the program stops or fails. -/
partial def follow {size : Nat} (i : Interpretation size) : IO Ending := do
  match i.advance with
  | .failed message => return .failure message
  | .stopped shown =>
    IO.print shown
    return .success
  | .more shown rest =>
    IO.print shown
    follow rest

/-- Writes assembly to a file. -/
def save (path text : String) : IO Ending := do
  match ← (IO.FS.Handle.mk path .write).toBaseIO with
  | .error e => return .failure (uncreatable path (systemReason e))
  | .ok handle =>
    match ← (handle.write text.toUTF8 *> handle.flush).toBaseIO with
    | .error e => return .failure (unwritable path (systemReason e))
    | .ok () => return .success

/-- Carries out a plan. -/
def Plan.perform (plan : Plan) : IO Ending := do
  IO.print plan.shown
  match plan.task with
  | .finish => return .success
  | .fail message => return .failure message
  | .write path text => save path text
  | .interpret i => follow i

/-- Runs the command on its arguments. -/
def command (args : List String) : IO UInt32 := do
  match Request.ofArguments args with
  | .error .usage => conclude .usage
  | .error .help =>
    IO.print helpText
    conclude .success
  | .error .version =>
    IO.print versionText
    conclude .success
  | .ok request =>
    let content ← (IO.FS.readBinFile request.path).toBaseIO
    let plan := request.plan (content.mapError systemReason)
    conclude (← plan.perform)

end CursorMachine.CommandLine

/-- The command. -/
def main (args : List String) : IO UInt32 :=
  CursorMachine.CommandLine.command args
