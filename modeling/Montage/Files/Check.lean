/-
Checks on the paths that a host is given.

A path may not hold a null character.  A project file must exist, be a regular
file with the right suffix in either case, and not be too large; a file to write
must have the right suffix and stand in a directory that exists.
-/
import Montage.Document.File
import Montage.Files.System

namespace Montage.Files

/-- The suffixes of project files. -/
def projectSuffixes : List String := [".json"]

/-- The null character as a text. -/
def null : String := String.ofList [Char.ofNat 0]

/-- The refusal of a null character in a path of some kind. -/
def holdsNull (what : String) : Fault :=
  .badValue ("Invalid " ++ what ++ " path: null byte detected")

/-- The text of a path of some kind.  A list or an object is no path, but the null character is
looked for in it first. -/
def pathText (what : String) (v : Value) : Except Fault String :=
  match v with
  | .text s => if Text.contains s null then .error (holdsNull what) else .ok s
  | .list items =>
    if items.any (·.isText null) then .error (holdsNull what)
    else .error (.wrongType "a list is no path")
  | .object fields =>
    if (fields.lookup null).isSome then .error (holdsNull what)
    else .error (.wrongType "an object is no path")
  | _ => .error (.wrongType "a path must be a text")

/-- The path of an existing file with one of some suffixes, or with any if none are given. -/
def existing (fs : FileSystem) (directory : Path) (suffixes : List String) (v : Value) :
    Except Fault (Path × File) := do
  let raw ← pathText "file" v
  let p := directory.resolve raw
  match ← fs.find p with
  | none => .error (.fileNotFound ("File not found: " ++ raw))
  | some .directory => .error (.badValue ("Not a regular file: " ++ raw))
  | some (.file f) =>
    if !suffixes.isEmpty && !suffixes.contains (Text.lower p.suffix) then
      .error (.badValue ("Invalid file type '" ++ p.suffix ++ "'. Allowed: " ++
        ", ".intercalate suffixes))
    else if Document.maxFileSize < f.size then
      .error (.badValue ("File too large (" ++ Document.megabytes f.size ++
        " MB). Maximum: 50 MB"))
    else return (p, f)

/-- The path of a project file to write. -/
def output (fs : FileSystem) (directory : Path) (v : Value) : Except Fault Path := do
  let p := directory.resolve (← pathText "output" v)
  if !projectSuffixes.contains (Text.lower p.suffix) then
    .error (.badValue ("Output must be a .json file, got '" ++ p.suffix ++ "'"))
  if (← fs.find p.parent).isNone then
    .error (.badValue ("Output directory does not exist: " ++ p.parent.text))
  return p

/-- The path of an existing directory. -/
def existingDirectory (fs : FileSystem) (directory : Path) (v : Value) : Except Fault Path := do
  let raw ← pathText "directory" v
  let p := directory.resolve raw
  match ← fs.find p with
  | some .directory => return p
  | _ => .error (.badValue ("Not a valid directory: " ++ raw))

/-- The project in a file. -/
def load (f : File) : Except Fault Project := Document.load f.size f.text

/-- Whether the last name of a path ends in the suffix of project files. -/
def isProjectFile (p : Path) : Bool :=
  projectSuffixes.any fun s => s.toList.isSuffixOf p.name.toList

/-- The texts of all paths below a directory that look like project files, in order. -/
def projectFiles (fs : FileSystem) (directory : Path) : List String :=
  (((fs.below directory).filter isProjectFile).map Path.text).mergeSort
    fun a b => decide (a ≤ b)

end Montage.Files
