/-
Projects read from documents.

A document gives every entry a value of any shape.  Ids become texts; times,
sizes and the frame rate become integers; kinds and alignments must be keywords;
everything else is taken as it is.  An entry that is missing where it is needed,
and a value that cannot be converted, make the document invalid.

Not every wrong shape is met with a problem: a composition or an editor state
that is no object, and a size that is infinite, are faults of other kinds, and
`project` lets those through.
-/
import Montage.Project.Basic
import Montage.Text.Digit
import Montage.Text.Infix

namespace Montage.Document

/-! ## Entries -/

/-- A list of entries. -/
abbrev Fields := List (String × Value)

/-- The value of an entry, if it is there.  Only an object has entries; a text or a list that
merely holds the key is refused, and so is what cannot hold anything. -/
def find (v : Value) (key : String) : Except Fault (Option Value) :=
  match v with
  | .object fields => .ok (fields.lookup key)
  | .text s =>
    if Text.contains s key then .error (.wrongType "string indices must be integers, not 'str'")
    else .ok none
  | .list items =>
    if items.any (·.isText key) then
      .error (.wrongType "list indices must be integers or slices, not str")
    else .ok none
  | .bytes _ => .error (.wrongType "a bytes-like object is required, not 'str'")
  | v => .error (.wrongType ("argument of type '" ++ v.kindName ++ "' is not iterable"))

/-- The value of an entry that must be there. -/
def require (v : Value) (key what : String) : Except Fault Value := do
  match ← find v key with
  | some w => return w
  | none =>
    .error (.problem (.invalidDocument (what ++ " is missing required field '" ++ key ++ "'")))

/-- The entries of an object. -/
def fieldsOf (v : Value) : Except Fault Fields :=
  match v with
  | .object fields => .ok fields
  | _ => .error .noAttribute

/-- The entries whose keys are not among the given ones. -/
def others (known : List String) (fields : Fields) : Fields :=
  fields.filter fun f => !known.contains f.1

/-- The start of bytes that a message can show; other values are shown whole. -/
def shownPart (v : Value) : Value :=
  match v with
  | .bytes bs => .bytes (bs.take 200)
  | v => v

/-- The refusal of a text that is no whole number. -/
def notWhole (v : Value) : Fault :=
  .badValue ("invalid literal for int() with base 10: " ++
    String.ofList ((shownPart v).quoted.toList.take 200))

/-- The integer that a value stands for: a number without its fraction, or a text that writes
a whole number. -/
def wholeNumber (v : Value) : Except Fault Int :=
  match v with
  | .bool b => .ok (if b then 1 else 0)
  | .int n => .ok n
  | .float x => (Number.float x).truncate
  | .text s =>
    match Text.readInt? s with
    | some n => .ok n
    | none => .error (notWhole v)
  | .bytes bs =>
    match Text.readInt? (String.ofList (bs.map fun b => Char.ofNat b.toNat)) with
    | some n => if bs.all (·.toNat < 128) then .ok n else .error (notWhole v)
    | none => .error (notWhole v)
  | v =>
    .error (.wrongType
      ("int() argument must be a string, a bytes-like object or a real number, not '" ++
        v.kindName ++ "'"))

/-- A bad input told as an invalid document. -/
def asInvalid {α : Type} (a : Except Fault α) : Except Fault α :=
  match a with
  | .error f => if f.isBadInput then .error (.problem (.invalidDocument f.message)) else .error f
  | .ok x => .ok x

/-! ## Entities -/

/-- The keys of an element that are not kept in `extra`. -/
def elementKeys : List String := ["id", "type"] ++ Element.Field.keyed.map Element.Field.key

/-- An alignment; absent and `null` are none. -/
def alignment (v : Value) : Except Fault (Option TextAlign) :=
  if v.isNull then .ok none else (TextAlign.read v).map some

/-- The value of an entry, or the given one if it is absent or `null`. -/
def entryOr (fields : Fields) (key : String) (absent : Value) : Value :=
  let v := Value.entry fields key
  if v.isNull then absent else v

/-- An element. -/
def element (v : Value) : Except Fault Element := do
  let kind ← asInvalid (do ElementKind.read (← require v "type" "Element"))
  let fields ← fieldsOf v
  let entry := Value.entry fields
  let textAlign ← asInvalid (alignment (entry "textAlign"))
  let id ← require v "id" "Element"
  return {
    id := .text id.display
    kind
    left := entryOr fields "left" (.int 0)
    top := entryOr fields "top" (.int 0)
    width := entryOr fields "width" (.int 0)
    height := entryOr fields "height" (.int 0)
    zIndex := entry "zIndex"
    text := entry "text"
    src := entry "src"
    fontSize := entry "fontSize"
    color := entry "color"
    fontFamily := entry "fontFamily"
    fontWeight := entry "fontWeight"
    textAlign
    opacity := entry "opacity"
    rotation := entry "rotation"
    delay := entry "delay"
    duration := entry "duration"
    animation := entry "animation"
    extra := { entries := others elementKeys fields } }

/-- A page. -/
def page (v : Value) : Except Fault Page := do
  let id ← require v "id" "Page"
  let fields ← fieldsOf v
  let duration ← wholeNumber ((fields.lookup "duration").getD (.int 0))
  let elements ← ((fields.lookup "elements").getD (.list [])).sequence
  return {
    id := .text id.display
    name := (fields.lookup "name").getD (.text "")
    duration := .int duration
    backgroundColor := Value.entry fields "backgroundColor"
    elements := ← elements.mapM element }

/-- An audio track.  A `null` is kept. -/
def audio (v : Value) : Except Fault Audio := do
  let _ ← Audio.Field.keyed.mapM fun f => find v f.key
  let id ← require v "id" "Audio track"
  let fields ← fieldsOf v
  let blank : Audio := { id := .text id.display, src := .text "" }
  let entry (f : Audio.Field) : Value := (fields.lookup f.key).getD (blank.get f)
  return {
    id := blank.id
    src := entry .src
    volume := entry .volume
    delay := entry .delay
    duration := entry .duration
    trimBefore := entry .trimBefore
    trimAfter := entry .trimAfter
    playbackRate := entry .playbackRate
    muted := entry .muted
    loop := entry .loop
    toneFrequency := entry .toneFrequency }

/-- A note. -/
def note (v : Value) : Except Fault Note := do
  let id ← require v "id" "Note"
  let fields ← fieldsOf v
  let time ← wholeNumber ((fields.lookup "time").getD (.int 0))
  return {
    id := .text id.display
    time := .int time
    text := (fields.lookup "text").getD (.text "")
    createdAt := (fields.lookup "createdAt").getD (.text "")
    updatedAt := Value.entry fields "updatedAt" }

/-! ## Projects -/

/-- The given value, or an empty list in place of one that is absent or empty. -/
def orEmpty (v : Value) : Value := if v.isTruthy then v else .list []

/-- A composition. -/
def composition (v : Value) : Except Fault Composition := do
  let fields ← fieldsOf v
  let rate := Value.entry fields "fps"
  let fps ← wholeNumber (if rate.isTruthy then rate else .int Limits.defaultFps)
  if fps ≤ 0 then
    .error (.problem (.invalidDocument
      ("Composition fps must be positive, got " ++ toString fps)))
  let width ← wholeNumber ((fields.lookup "width").getD (.int Limits.defaultWidth))
  let height ← wholeNumber ((fields.lookup "height").getD (.int Limits.defaultHeight))
  let pages ← (orEmpty (Value.entry fields "pages")).sequence
  let pages ← pages.mapM page
  let audios ← (orEmpty (Value.entry fields "audios")).sequence
  return { fps, width, height, pages, audios := ← audios.mapM audio }

/-- The keys of an editor state that are not kept in `extra`. -/
def appStateKeys : List String :=
  ["selectedPageId", "selectedElementId", "currentTime", "zoomLevel"]

/-- An editor state; what is absent or empty stands for the initial one. -/
def appState (v : Value) : Except Fault AppState := do
  let fields ← if v.isTruthy then fieldsOf v else pure []
  let blank : AppState := {}
  return {
    selectedPageId := entryOr fields "selectedPageId" blank.selectedPageId
    selectedElementId := entryOr fields "selectedElementId" blank.selectedElementId
    currentTime := entryOr fields "currentTime" blank.currentTime
    zoomLevel := entryOr fields "zoomLevel" blank.zoomLevel
    extra := others appStateKeys fields }

/-- The composition of a project, none if it is absent or `null`. -/
def composition? (v : Value) : Except Fault (Option Composition) :=
  if v.isNull then .ok none else (composition v).map some

/-- The parts of a project. -/
def projectOf (fields : Fields) : Except Fault Project := do
  let composition ← composition? (Value.entry fields "composition")
  let notes ← (orEmpty (Value.entry fields "notes")).sequence
  let notes ← notes.mapM note
  let appState ← appState (Value.entry fields "appState")
  return {
    id := ((fields.lookup "id").getD (.text "")).display
    name := (fields.lookup "name").getD (.text "Untitled Project")
    composition, notes, appState }

/-- A failed conversion told as an invalid document; problems stay as they are. -/
def invalidIfBad {α : Type} (a : Except Fault α) : Except Fault α :=
  match a with
  | .error (.problem p) => .error (.problem p)
  | a => asInvalid a

/-- A project. -/
def project (v : Value) : Except Fault Project :=
  match v with
  | .object fields => invalidIfBad (projectOf fields)
  | _ => .error (.problem (.invalidDocument "Project document must be a JSON object"))

end Montage.Document
