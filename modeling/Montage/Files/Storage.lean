/-
The files of a directory as a file storage: a record for each file, its contents
left out.  Hidden files and directories are not listed.
-/
import Montage.Files.MediaType
import Montage.Files.System
import Montage.Value.Basic

namespace Montage.Files

/-- The record of a file that was changed at a time in milliseconds. -/
def record (modified : Nat) (p : Path) (f : File) : Value :=
  .object [
    ("id", .text p.stem),
    ("name", .text p.name),
    ("type", .text (MediaType.ofName p.name)),
    ("size", .int f.size),
    ("lastModified", .int modified)]

/-- The files of a directory that are not hidden, in the order of their names. -/
def visible (fs : FileSystem) (directory : Path) : List (Path × File) :=
  let files := (fs.childrenOf directory).filterMap fun e =>
    match e.2 with
    | .file f => if e.1.name.toList.head? == some '.' then none else some (e.1, f)
    | .directory => none
  files.mergeSort fun a b => decide (a.1.name ≤ b.1.name)

/-- The records of the files of a directory, none if it is no directory. -/
def records (fs : FileSystem) (modified : Nat) (directory : Path) (s : String) :
    Except Fault (List Value) := do
  match ← fs.locate directory s with
  | some (p, .directory) => return (visible fs p).map fun e => record modified e.1 e.2
  | _ => return []

end Montage.Files
