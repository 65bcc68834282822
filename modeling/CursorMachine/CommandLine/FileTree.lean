import CursorMachine.CommandLine.Path

/-!
# File trees

What the command may read and write, as a value. A tree maps absolute locations, given by their
names from the root on, to entries: directories, files and devices. The root is always a directory.

A path is resolved from a working directory, name by name; every name but the last must be there and
be a directory. A path that ends in a slash asks for a directory, so no file can be opened for
writing at it, wherever it leads.

Writing has two parts, as it has two kinds of faults: `target` finds the location that a path opens
for writing, and `fill` writes to it. Faults are worded the way the system words them, each with its
number.
-/

namespace CursorMachine.CommandLine

/-- Why a path cannot be used. -/
inductive FileFault where
  | missing
  | notDirectory
  | isDirectory
  | nameTooLong
  | noSpace
  deriving DecidableEq, Repr

/-- The wording of a fault. -/
def FileFault.message : FileFault → String
  | .missing => "No such file or directory (os error 2)"
  | .notDirectory => "Not a directory (os error 20)"
  | .isDirectory => "Is a directory (os error 21)"
  | .nameTooLong => "File name too long (os error 36)"
  | .noSpace => "No space left on device (os error 28)"

/-- What becomes of what is written to a device. A device has nothing to read. -/
inductive Device where
  /-- It is dropped. -/
  | sink
  /-- It is refused: there is no room. -/
  | full
  /-- It is shown, after everything shown before. -/
  | display
  deriving DecidableEq, Repr

/-- Contents are compared byte by byte. -/
local instance (priority := high) instDecidableEqContent : DecidableEq ByteArray := ByteArray.decEq

/-- What a location holds. -/
inductive Entry where
  | directory
  | file (content : ByteArray)
  | device (d : Device)
  deriving DecidableEq

/-- A location: names from the root on. -/
abbrev Location := List String

/-- Entries at locations. -/
structure FileTree where
  entries : List (Location × Entry)
  deriving DecidableEq

namespace FileTree

/-- The most bytes a name may have. -/
def maxNameBytes : Nat := 255

/-- The bytes at which a path is too long. -/
def maxPathBytes : Nat := 4096

/-- What is at a location. -/
def entry? (t : FileTree) (location : Location) : Option Entry :=
  if location = [] then some .directory else t.entries.lookup location

theorem entry?_of_ne_root {t : FileTree} {location : Location} (h : location ≠ []) :
    t.entry? location = t.entries.lookup location :=
  if_neg h

/-- The tree with a file at a location, in place of what was there. -/
def put (t : FileTree) (location : Location) (content : ByteArray) : FileTree :=
  ⟨(location, .file content) :: t.entries.filter (·.1 != location)⟩

/-- Follows names from a location. Each step starts at a directory; the last one may lead to a
location that holds nothing. -/
def follow (t : FileTree) : Location → List String → Except FileFault Location
  | here, [] => .ok here
  | here, name :: names =>
    match t.entry? here with
    | none => .error .missing
    | some .directory =>
      if name = "" ∨ name = "." then follow t here names
      else if name = ".." then follow t here.dropLast names
      else if maxNameBytes < name.utf8ByteSize then .error .nameTooLong
      else follow t (here ++ [name]) names
    | some _ => .error .notDirectory

/-- Follows names from where a path starts. -/
def resolve (t : FileTree) (working : Location) (path : String) (names : List String) :
    Except FileFault Location :=
  if path.isEmpty then .error .missing
  else if maxPathBytes ≤ path.utf8ByteSize then .error .nameTooLong
  else t.follow (if Path.isAbsolute path then [] else working) names

/-- The bytes of the file at a path. -/
def read (t : FileTree) (working : Location) (path : String) : Except FileFault ByteArray := do
  match t.entry? (← t.resolve working path (Path.names path)) with
  | none => throw .missing
  | some .directory => throw .isDirectory
  | some (.file content) => return content
  | some (.device _) => return .empty

/-- The location that a path opens for writing. A path that ends in a slash is refused once what
leads to its last name is known to be a directory, before that name is looked at. -/
def target (t : FileTree) (working : Location) (path : String) : Except FileFault Location := do
  let names := Path.names path
  if !path.isEmpty ∧ names.getLast? = some "" then
    let leading := (names.reverse.dropWhile (· == "")).tail.reverse
    discard <| t.resolve working path (leading ++ ["."])
    throw .isDirectory
  let location ← t.resolve working path names
  if t.entry? location = some .directory then throw .isDirectory
  return location

/-- The tree after writing to a location that was opened for it, and what the writing shows. A file
is created or replaced; a device stays what it is. -/
def fill (t : FileTree) (location : Location) (text : String) :
    Except FileFault (FileTree × String) :=
  match t.entry? location with
  | some (.device .sink) => .ok (t, "")
  | some (.device .full) => .error .noSpace
  | some (.device .display) => .ok (t, text)
  | _ => .ok (t.put location text.toUTF8, "")

end FileTree

end CursorMachine.CommandLine
