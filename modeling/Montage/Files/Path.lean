/-
Paths.

A path is the list of names from the root on.  A text is resolved against the
directory it is relative to: empty names and single dots are dropped, and two
dots take back the name before them, whether or not there is such a directory.
-/
import Montage.Text.CaseMap

namespace Montage

/-- An absolute path. -/
structure Path where
  /-- The names from the root on. -/
  names : List String
deriving DecidableEq, Repr

namespace Path

/-- The parts of the characters between slashes. -/
def splitSlashes : List Char → List (List Char)
  | [] => [[]]
  | c :: r =>
    match splitSlashes r with
    | [] => [[c]]
    | p :: ps => if c == '/' then [] :: p :: ps else (c :: p) :: ps

/-- The names in a text, without empty ones and single dots. -/
def namesIn (s : String) : List String :=
  ((splitSlashes s.toList).map String.ofList).filter fun n => n != "" && n != "."

/-- Whether a text is a path from the root. -/
def isAbsolute (s : String) : Bool := s.toList.head? == some '/'

/-- A text of a path without empty names and single dots. -/
def tidy (s : String) : String :=
  (if isAbsolute s then "/" else "") ++ "/".intercalate (namesIn s)

/-- One more name; two dots take the last one back. -/
def enter (names : List String) (name : String) : List String :=
  if name == ".." then names.dropLast else names ++ [name]

/-- The path that a text stands for in a directory. -/
def resolve (directory : Path) (s : String) : Path :=
  ⟨(namesIn s).foldl enter (if isAbsolute s then [] else directory.names)⟩

/-- The path as a text. -/
def text (p : Path) : String := "/" ++ "/".intercalate p.names

/-- The last name, empty for the root. -/
def name (p : Path) : String := p.names.getLast?.getD ""

/-- The directory that holds the path; the root holds itself. -/
def parent (p : Path) : Path := ⟨p.names.dropLast⟩

/-- The path of a name in this directory. -/
def child (p : Path) (name : String) : Path := ⟨p.names ++ [name]⟩

/-- Whether a path is somewhere below another one. -/
def isBelow (p directory : Path) : Bool :=
  directory.names.isPrefixOf p.names && p.names.length != directory.names.length

/-- A name parted before its last dot, unless the dot stands at the start or at the end. -/
def splitName (name : String) : String × String :=
  let r := name.toList.reverse
  let ending := r.takeWhile (· != '.')
  let stem := (r.drop (ending.length + 1)).reverse
  if stem.isEmpty || ending.isEmpty then (name, "")
  else (String.ofList stem, String.ofList ('.' :: ending.reverse))

/-- The last name without its suffix. -/
def stem (p : Path) : String := (splitName p.name).1

/-- The suffix of the last name with its dot, empty if there is none. -/
def suffix (p : Path) : String := (splitName p.name).2

end Path

end Montage
