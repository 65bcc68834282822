/-!
# Paths

A path is a text of names between slashes. Empty names and single dots stay where they are, two dots
go up, and a leading slash starts at the root.

`withExtension` replaces the extension of the last name, which is what follows its last dot. A name
whose only dot comes first has no extension, and a path without a last name stays as it is. The old
extension goes first; when two dots are left, they go up and are no name, so they gain no extension.
Nothing keeps the new path from being the old one: a name may have the new extension already.
-/

namespace CursorMachine.CommandLine

namespace Path

/-- The names of a path, with those that stay in place. -/
def names (path : String) : List String :=
  (path.toList.splitOn '/').map String.ofList

/-- The path starts at the root. -/
def isAbsolute (path : String) : Bool :=
  path.toList.head? == some '/'

/-- Drops the slashes and single dots after the last name from a path written backwards. -/
def dropTrailing : List Char → List Char
  | '/' :: cs => dropTrailing cs
  | '.' :: '/' :: cs => dropTrailing cs
  | cs => cs

/-- Drops the extension of a name written backwards, with its dot. A first dot starts no
extension. -/
def dropExtension (name : List Char) : List Char :=
  match name.dropWhile (· != '.') with
  | _ :: stem@(_ :: _) => stem
  | _ => name

/-- The path with the extension of its last name replaced, or added. -/
def withExtension (path extension : String) : String :=
  let backwards := dropTrailing path.toList.reverse
  let name := backwards.takeWhile (· != '/')
  let rest := backwards.dropWhile (· != '/')
  if name = [] ∨ name = ['.'] ∨ name = ['.', '.'] then path
  else if dropExtension name = ['.'] then String.ofList ('.' :: '.' :: rest).reverse
  else String.ofList (dropExtension name ++ rest).reverse ++ "." ++ extension

example : withExtension "a.b.c" "s" = "a.b.s" := by decide +kernel
example : withExtension ".hidden" "s" = ".hidden.s" := by decide +kernel
example : withExtension "dir.d/prog" "s" = "dir.d/prog.s" := by decide +kernel
example : withExtension "prog.s" "s" = "prog.s" := by decide +kernel
example : withExtension "./..a" "s" = "./.." := by decide +kernel
example : withExtension "..a.b" "s" = "..a.s" := by decide +kernel

end Path

end CursorMachine.CommandLine
