/-
Files and directories.

A file system holds nodes at paths; the root is always a directory.  To find a
path each name on it is looked up in a directory, so a path through a file leads
nowhere, and a name or a path that is too long is a fault.
-/
import Montage.Fault
import Montage.Files.Path

namespace Montage

/-- A file: its text and its size in bytes. -/
structure File where
  text : String
  size : Nat := text.utf8ByteSize
deriving DecidableEq, Repr

/-- What stands at a path. -/
inductive Node where
  | directory
  | file (f : File)
deriving DecidableEq, Repr

/-- Nodes at paths. -/
structure FileSystem where
  entries : List (Path × Node) := []
deriving DecidableEq, Repr

namespace FileSystem

/-- The longest name in bytes. -/
def maxName : Nat := 255

/-- The longest path in bytes. -/
def maxPath : Nat := 4095

/-- The node at a path. -/
def node? (fs : FileSystem) (p : Path) : Option Node :=
  if p.names.isEmpty then some .directory else fs.entries.lookup p

/-- The path and the node to which names lead from a path. -/
def walk (fs : FileSystem) (here : Path) : List String → Except Fault (Option (Path × Node))
  | [] => .ok ((fs.node? here).map fun n => (here, n))
  | name :: rest =>
    match fs.node? here with
    | some .directory =>
      if name == ".." then fs.walk here.parent rest
      else if maxName < name.utf8ByteSize then .error .fileSystem
      else fs.walk (here.child name) rest
    | _ => .ok none

/-- The path and the node to which a text leads from a directory. -/
def locate (fs : FileSystem) (directory : Path) (s : String) :
    Except Fault (Option (Path × Node)) :=
  if maxPath < (Path.tidy s).utf8ByteSize then .error .fileSystem
  else fs.walk (if Path.isAbsolute s then ⟨[]⟩ else directory) (Path.namesIn s)

/-- The node that is found at a path. -/
def find (fs : FileSystem) (p : Path) : Except Fault (Option Node) := do
  if maxPath < p.text.utf8ByteSize then .error .fileSystem
  return (← fs.walk ⟨[]⟩ p.names).map (·.2)

/-- The entries with a node put at a path. -/
def putEntry (p : Path) (n : Node) : List (Path × Node) → List (Path × Node)
  | [] => [(p, n)]
  | e :: r => if e.1 == p then (p, n) :: r else e :: putEntry p n r

/-- The file system with a node put at a path. -/
def put (fs : FileSystem) (p : Path) (n : Node) : FileSystem := ⟨putEntry p n fs.entries⟩

/-- The file system with a path and those above it as directories, where nothing is yet. -/
def makeDirectory (fs : FileSystem) (p : Path) : FileSystem :=
  (List.range (p.names.length + 1)).foldl (fun fs i =>
    let q : Path := ⟨p.names.take i⟩
    if (fs.node? q).isSome then fs else fs.put q .directory) fs

/-- The nodes in a directory. -/
def childrenOf (fs : FileSystem) (directory : Path) : List (Path × Node) :=
  fs.entries.filter fun e => e.1.parent == directory && !e.1.names.isEmpty

/-- The paths somewhere below a directory. -/
def below (fs : FileSystem) (directory : Path) : List Path :=
  (fs.entries.map (·.1)).filter fun p => p.isBelow directory

/-- The file system with the text of a file written. -/
def write (fs : FileSystem) (p : Path) (text : String) : Except Fault FileSystem := do
  match ← fs.find p with
  | some .directory => .error .isDirectory
  | some (.file _) => return fs.put p (.file { text })
  | none =>
    match ← fs.find p.parent with
    | some .directory => return fs.put p (.file { text })
    | some (.file _) => .error .notDirectory
    | none => .error (.fileNotFound p.text)

end FileSystem

end Montage
