/-
Keywords: the kinds of element and the alignments of text.

A document or a command line gives a keyword as text in any case, with white
space around it.  Only a text can be one, and it may not hold control characters
nor be longer than 64 characters.
-/
import Montage.Value.Text
import Montage.Text.CaseMap
import Montage.Text.Blank

namespace Montage

/-- The kinds of element on a page. -/
inductive ElementKind where
  | text
  | image
  | video
  | group
deriving DecidableEq, Repr

/-- The horizontal alignments of text. -/
inductive TextAlign where
  | left
  | center
  | right
deriving DecidableEq, Repr

namespace Keyword

/-- The longest text that may hold a keyword. -/
def maxLength : Nat := 64

/-- The keyword in a value: the text in lower case without the white space around it. -/
def normalize (label : String) (v : Value) : Except Fault String :=
  match v with
  | .text s =>
    if s.toList.any (·.toNat < 32) then
      .error (.badValue (label ++ " contains invalid control characters"))
    else if maxLength < s.length then
      .error (.badValue (label ++ " exceeds maximum length (" ++ toString maxLength ++ " chars)"))
    else
      let word := Text.lower (Text.strip s)
      if word.isEmpty then .error (.badValue (label ++ " cannot be empty")) else .ok word
  | v => .error (.notText v.kindName)

end Keyword

namespace ElementKind

/-- The keyword of a kind. -/
def name : ElementKind → String
  | text => "text"
  | image => "image"
  | video => "video"
  | group => "group"

/-- All kinds. -/
def all : List ElementKind := [text, image, video, group]

/-- The kind that a value names. -/
def read (v : Value) : Except Fault ElementKind := do
  let word ← Keyword.normalize "Element type" v
  match all.find? (·.name == word) with
  | some k => return k
  | none =>
    .error (.badValue ("Invalid element type: '" ++ v.display ++ "'. Valid types: " ++
      ", ".intercalate (all.map name)))

end ElementKind

namespace TextAlign

/-- The keyword of an alignment. -/
def name : TextAlign → String
  | left => "left"
  | center => "center"
  | right => "right"

/-- All alignments. -/
def all : List TextAlign := [left, center, right]

/-- The alignment with a keyword, written exactly. -/
def ofName? (s : String) : Option TextAlign := all.find? (·.name == s)

/-- The alignment that a value names. -/
def read (v : Value) : Except Fault TextAlign := do
  let word ← Keyword.normalize "Text align" v
  match ofName? word with
  | some a => return a
  | none =>
    .error (.badValue ("Invalid text align: '" ++ v.display ++ "'. Valid values: " ++
      ", ".intercalate (all.map name)))

end TextAlign

end Montage
