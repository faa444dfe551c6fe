/-
Project files.

A file holds one document as JSON.  A file above the size limit is not read; a
text that is no JSON is an invalid document.  A carriage return, alone or before
a line feed, counts as a line feed.  `fileText` is the text that is written.
-/
import Montage.Document.Decode
import Montage.Document.Encode
import Montage.Json.Printer
import Montage.Json.Reader

namespace Montage.Document

/-- The largest file that is read, in bytes. -/
def maxFileSize : Nat := 50 * 1024 * 1024

/-- A size in megabytes with one digit after the point. -/
def megabytes (size : Nat) : String :=
  (Binary64.ofRatio false size (1024 * 1024)).fixedText 1

/-- The characters with each line break as one line feed. -/
def lineFeeds : List Char → List Char
  | [] => []
  | '\r' :: '\n' :: r => '\n' :: lineFeeds r
  | '\r' :: r => '\n' :: lineFeeds r
  | c :: r => c :: lineFeeds r

/-- The project that the text of a file holds. -/
def parse (text : String) : Except Fault Project :=
  match Json.read (String.ofList (lineFeeds text.toList)) with
  | .ok v => project v
  | .error message => .error (.problem (.invalidDocument ("Not valid JSON: " ++ message)))

/-- The project in a file of a size. -/
def load (size : Nat) (text : String) : Except Fault Project :=
  if maxFileSize < size then
    .error (.badValue ("Project file exceeds maximum size (" ++ megabytes size ++
      " MB > 50 MB limit)"))
  else parse text

/-- The text of the file that a project is saved in. -/
def fileText (p : Project) : Except Fault String := do
  return (← Json.write (ofProject p)) ++ "\n"

end Montage.Document
