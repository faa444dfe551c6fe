/-
Option values.

A converter turns the text after an option into a value, or refuses it with a
short reason.  Durations become frames at the project's frame rate.  What a
converter refuses is a bad value; only a duration can fail otherwise, when the
frames exceed the range of floating point.
-/
import Montage.Project.Basic
import Montage.Duration

namespace Montage

/-- Turns the text of an option, at a frame rate, into a value. -/
abbrev Converter := String → Number → Except Fault Value

namespace Converter

/-- The refusal with a reason. -/
def refuse {α : Type} (reason : String) : Except Fault α := .error (.badValue reason)

/-- A text as it is. -/
def text : Converter := fun raw _ => .ok (.text raw)

/-! ## Numbers -/

/-- The characters after an optional sign. -/
def unsigned : List Char → List Char
  | '+' :: r => r
  | '-' :: r => r
  | r => r

/-- Whether the characters are an optional sign and digits. -/
def isSignedDigits (cs : List Char) : Bool :=
  let ds := unsigned cs
  !ds.isEmpty && ds.all Text.isDecimal

/-- The refusal of a text that looks like a whole number and cannot be read as one. -/
def unreadable (raw : String) : Fault :=
  .badValue ("invalid literal for int() with base 10: " ++
    String.ofList ((Text.quoted raw).toList.take 200))

/-- A whole number; white space may stand around it. -/
def integer (raw : String) : Except Fault Int :=
  if !isSignedDigits (Text.stripChars raw.toList) then refuse "must be a whole number"
  else
    match Text.readInt? raw with
    | some n => .ok n
    | none => .error (unreadable raw)

/-- A whole number. -/
def whole : Converter := fun raw _ => (integer raw).map .int

/-- A whole number above zero. -/
def positiveWhole : Converter := fun raw _ => do
  let n ← integer raw
  if n ≤ 0 then refuse "must be a positive whole number" else return .int n

/-- A whole number from `low` to `high`. -/
def wholeBetween (low high : Number) : Converter := fun raw _ => do
  let n ← integer raw
  if (Number.int n).lt low || high.lt (.int n) then
    refuse ("must be between " ++ low.text ++ " and " ++ high.text)
  else return .int n

/-- The digits before and after the point of an unsigned decimal number, of which one side may
be empty. -/
def decimalParts? (cs : List Char) : Option (List Char × List Char) :=
  let whole := cs.takeWhile Text.isDecimal
  match cs.dropWhile Text.isDecimal with
  | [] => if whole.isEmpty then none else some (whole, [])
  | '.' :: r =>
    if r.all Text.isDecimal && !(whole.isEmpty && r.isEmpty) then some (whole, r) else none
  | _ => none

/-- The characters without one line feed at their end. -/
def withoutFinalLineFeed (cs : List Char) : List Char :=
  if cs.getLast? = some '\n' then cs.dropLast else cs

/-- The float of an optional sign and a decimal number; one line feed may stand after them. -/
def float? (raw : String) : Option Binary64 :=
  let cs := withoutFinalLineFeed raw.toList
  (decimalParts? (unsigned cs)).map fun (whole, fraction) =>
    Binary64.ofDecimal (cs.head? = some '-') (Text.natOfDigits (whole ++ fraction))
      (-fraction.length)

/-- A decimal number. -/
def decimal (raw : String) : Except Fault Binary64 :=
  match float? raw with
  | some x => .ok x
  | none => refuse "must be a number"

/-- A decimal number as a value. -/
def number : Converter := fun raw _ => (decimal raw).map .float

/-- A decimal number above zero. -/
def positiveNumber : Converter := fun raw _ => do
  let x ← decimal raw
  if x.compareInt? 0 = some .gt then return .float x else refuse "must be a positive number"

/-- A decimal number from `low` to `high`. -/
def numberBetween (low high : Number) : Converter := fun raw _ => do
  let reason := do
    return "must be between " ++ (← low.briefText) ++ " and " ++ (← high.briefText)
  match float? raw with
  | none => refuse (← reason)
  | some x =>
    if (Number.float x).lt low || high.lt (.float x) then refuse (← reason) else return .float x

/-- A number of the form `n / d`. -/
def ratio (n d : Nat) : Number := .float (Binary64.ofRatio false n d)

/-- A volume. -/
def volume : Converter := numberBetween (ratio 0 1) (ratio 1 1)

/-- An opacity. -/
def opacity : Converter := numberBetween (ratio 0 1) (ratio 1 1)

/-- A tone frequency. -/
def toneFrequency : Converter := numberBetween (ratio 1 100) (ratio 2 1)

/-! ## Words, durations, colours and positions -/

/-- One of the words `true` and `false`, written exactly. -/
def truth : Converter := fun raw _ =>
  if raw == "true" then .ok (.bool true)
  else if raw == "false" then .ok (.bool false)
  else refuse "must be 'true' or 'false'"

/-- The forms of a duration. -/
def durationForms : String := "formats: `1000`, `500ms`, `1.5s`, `2m`, `30f`"

/-- A duration in frames. -/
def duration : Converter := fun raw fps => do
  let reason := "must be a non-negative duration (" ++ durationForms ++ ")"
  match ← Duration.read raw fps with
  | none => refuse reason
  | some n => if n < 0 then refuse reason else return .int n

/-- A duration of at least one frame. -/
def positiveDuration : Converter := fun raw fps => do
  let reason := "must be a positive duration (" ++ durationForms ++ ")"
  match ← Duration.read raw fps with
  | none => refuse reason
  | some n => if n ≤ 0 then refuse reason else return .int n

/-- A list of keywords, each in quotes. -/
def quotedWords (words : List String) : String :=
  ", ".intercalate (words.map fun w => "'" ++ w ++ "'")

/-- A bad input told as a choice among keywords. -/
def choice (words : List String) (a : Except Fault String) : Except Fault Value :=
  match a with
  | .ok w => .ok (.text w)
  | .error f => if f.isBadInput then refuse ("must be one of " ++ quotedWords words) else .error f

/-- A kind of element. -/
def elementKind : Converter := fun raw _ =>
  choice (ElementKind.all.map ElementKind.name)
    ((ElementKind.read (.text raw)).map ElementKind.name)

/-- An alignment of text. -/
def textAlign : Converter := fun raw _ =>
  choice (TextAlign.all.map TextAlign.name) ((TextAlign.read (.text raw)).map TextAlign.name)

/-- A digit in base sixteen. -/
def isHexDigit (c : Char) : Bool :=
  c.isDigit || ('a' ≤ c && c ≤ 'f') || ('A' ≤ c && c ≤ 'F')

/-- A function of colour components: its name, a parenthesis, anything on one line, and the
closing parenthesis. -/
def isColorCall (name : String) (cs : List Char) : Bool :=
  let opening := name.toList ++ ['(']
  opening.isPrefixOf cs &&
    (let rest := cs.drop opening.length
     rest.getLast? == some ')' && rest.dropLast.all (· != '\n'))

/-- A colour: three to eight digits in base sixteen after a hash, a function of components, or
a name in ASCII letters. -/
def isColor (cs : List Char) : Bool :=
  (match cs with
    | '#' :: r => 3 ≤ r.length && r.length ≤ 8 && r.all isHexDigit
    | _ => false) ||
  isColorCall "rgb" cs || isColorCall "rgba" cs ||
  (!cs.isEmpty && cs.all Char.isAlpha)

/-- A colour, kept as it is written; one line feed may stand after it. -/
def color : Converter := fun raw _ =>
  if isColor (withoutFinalLineFeed raw.toList) then .ok (.text raw)
  else refuse "must be a hex (`#ff0000`), rgb()/rgba(), or CSS color name"

/-- A position or the id of a sibling, without the white space around it. -/
def position : Converter := fun raw _ =>
  let s := Text.strip raw
  if s.isEmpty then refuse "must be a position number or an id" else .ok (.text s)

end Converter

end Montage
