/-
Addresses of files.

An address is the scheme and the path from the root, with the characters that an
address cannot hold written as the bytes of their UTF-8 form in base sixteen.  In
the address a question mark begins a query and a number sign a fragment, wherever
they stand in the path; before these a backslash is a slash, and the names `.` and
`..` are resolved.  A path that ends in one of these two names is that of a directory
and ends in a slash.  A drive, a letter with a colon or a bar, is never taken back.
Tabulators and line breaks are left out.  A percent sign stands for itself.
-/
import Montage.Files.Path
import Montage.Text.Blank
import Montage.Text.Quoted

namespace Montage.Address

/-- What stands before the path in an address. -/
def scheme : String := "file://"

/-! ## Characters -/

/-- Whether a character is a control character or beyond ASCII. -/
def isForeign (c : Char) : Bool := c.toNat < 0x20 || 0x7f ≤ c.toNat

/-- Whether a character cannot stand in a fragment. -/
def barredInFragment (c : Char) : Bool := isForeign c || [' ', '"', '<', '>', '\x60'].contains c

/-- Whether a character cannot stand in a path. -/
def barredInPath (c : Char) : Bool := barredInFragment c || ['\x7b', '\x7d'].contains c

/-- Whether a character cannot stand in a query. -/
def barredInQuery (c : Char) : Bool := isForeign c || [' ', '"', '<', '>', '\''].contains c

/-- A byte in base sixteen behind a percent sign. -/
def byteChars (b : UInt8) : List Char := '%' :: (Text.hex 2 b.toNat).map Char.toUpper

/-- Characters with the barred ones written as bytes. -/
def encode (barred : Char → Bool) (cs : List Char) : List Char :=
  cs.flatMap fun c => if barred c then (String.utf8EncodeChar c).flatMap byteChars else [c]

/-! ## Paths -/

/-- The forms of a dot. -/
def dots : List String := [".", "%2e"]

/-- The forms of two dots. -/
def doubleDots : List String := dots.flatMap fun a => dots.map (a ++ ·)

/-- A name with the forms of a dot in lower case. -/
def folded (name : String) : String := name.map Char.toLower

/-- Whether a name stands for the directory it is in. -/
def isDot (name : String) : Bool := dots.contains (folded name)

/-- Whether a name stands for the directory above. -/
def isDoubleDot (name : String) : Bool := doubleDots.contains (folded name)

/-- The letter of a drive, if the name is one. -/
def drive? (name : String) : Option Char :=
  match name.toList with
  | [c, mark] => if c.isAlpha && (mark == ':' || mark == '|') then some c else none
  | _ => none

/-- The names without the last one, unless that is a drive. -/
def leave (names : List String) : List String :=
  if (names.getLast?.bind drive?).isSome then names else names.dropLast

/-- A name as it is written behind others; a drive that comes first has a colon. -/
def written (names : List String) (name : String) : String :=
  match names, drive? name with
  | [], some c => String.ofList [c, ':']
  | _, _ => name

/-- One more name of a path; a dot is dropped, and two dots take the last name back. -/
def enter (names : List String) (name : String) : List String :=
  if isDot name then names
  else if isDoubleDot name then leave names
  else names ++ [written names name]

/-- The names of a path with the dots resolved; behind a last dot comes an empty name. -/
def resolve (names : List String) : List String :=
  let last := names.getLast?.getD ""
  names.foldl enter [] ++ (if isDot last || isDoubleDot last then [""] else [])

/-- The path with its names resolved and written out, after a single slash. -/
def pathChars (cs : List Char) : List Char :=
  let names := (Path.splitSlashes (cs.map fun c => if c == '\\' then '/' else c)).map String.ofList
  let names := (resolve (names.drop 1)).dropWhile (·.isEmpty)
  encode barredInPath ("/" ++ "/".intercalate names).toList

/-- A query with its question mark, and what stands behind it. -/
def queryChars (cs : List Char) : List Char :=
  encode barredInQuery (cs.takeWhile (· != '#')) ++
    encode barredInFragment (cs.dropWhile (· != '#'))

/-- The address of the file at a path. -/
def ofPath (text : String) : String :=
  let cs := Text.joinLines text.toList
  let inPath (c : Char) : Bool := c != '?' && c != '#'
  scheme ++ String.ofList (pathChars (cs.takeWhile inPath) ++ queryChars (cs.dropWhile inPath))

end Montage.Address
