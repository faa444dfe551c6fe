/-
Command lines.

A line is split at white space.  Double quotes keep what stands between them
together, and white space in it; between quotes a backslash before a quote makes
the quote part of the token, and any other backslash stands for itself.  A quote
that is not closed runs to the end of the line.

A line is a command if its first character, white space left out, is a slash
with a character that is no white space after it.
-/
import Montage.Text.Blank
import Montage.Text.CaseMap

namespace Montage.Line

/-- A token that was begun, its last character first. -/
abbrev Begun := Option (List Char)

/-- A begun token with one more character. -/
def add (word : Begun) (c : Char) : Begun := some (c :: word.getD [])

/-- The begun token, if there is one, before the others. -/
def emit (word : Begun) (tokens : List String) : List String :=
  match word with
  | none => tokens
  | some cs => String.ofList cs.reverse :: tokens

/-- The tokens of the remaining characters, inside quotes or outside, after a begun one. -/
def tokensFrom : (quoted : Bool) → (word : Begun) → List Char → List String
  | _, word, [] => emit word []
  | true, word, '\\' :: '"' :: r => tokensFrom true (add word '"') r
  | true, word, '"' :: r => tokensFrom false word r
  | true, word, c :: r => tokensFrom true (add word c) r
  | false, word, '"' :: r => tokensFrom true (some (word.getD [])) r
  | false, word, c :: r =>
    if Text.isBlank c then emit word (tokensFrom false none r)
    else tokensFrom false (add word c) r

/-- The tokens of a text. -/
def tokenize (text : String) : List String := tokensFrom false none text.toList

/-- The name of a command, in lower case, and the tokens after it. -/
structure Call where
  name : String
  args : List String
deriving DecidableEq, Repr

/-- The command that a line calls. -/
def call? (text : String) : Option Call :=
  match Text.stripChars text.toList with
  | '/' :: c :: r =>
    if Text.isBlank c then none
    else
      match tokensFrom false none (c :: r) with
      | [] => none
      | name :: args => some ⟨Text.lower name, args⟩
  | _ => none

end Montage.Line
