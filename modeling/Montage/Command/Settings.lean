/-
Commands on the composition as a whole: showing it, changing its title, frame
rate and canvas, zooming the timeline, and listing the stored files.
-/
import Montage.Command.Session
import Montage.Document.Encode
import Montage.Options.Recurring

namespace Montage.Settings

/-! ## Showing the composition -/

/-- What `/ls-comp` accepts. -/
def displayGrammar : Grammar where
  command := "ls-comp"
  options := [.flag "interactive" "--interactive" "-i"]
  fields := ["interactive"]

/-- Opens the viewer, if there is one. -/
def openViewer (viewer : Option Viewer) : Act Outcome := do
  match viewer with
  | none =>
    throw (.notFound "Viewer Not Available"
      "The interactive composition viewer is not available in this session.")
  | some v =>
    Act.openViewer v
    return .info "🧩" "Composition Viewer Opened"
      "The composition is now shown in the interactive JSON viewer."

/-- Shows the document of the composition, in the answer or in the viewer. -/
def display : Handler := fun ctx => do
  let (_, composition) ← ctx.require
  let args ← ctx.parse displayGrammar
  if args.isSet "interactive" then openViewer ctx.collaborators.viewer
  else
    let document := Document.ofComposition composition
    return .info "🧩" "Composition" (← Markup.jsonBlock document) document

/-! ## Listing files -/

/-- What `/ls-files` accepts. -/
def listFilesGrammar : Grammar where
  command := "ls-files"
  fields := []

/-- The keys of a file record that hold contents. -/
def contentKeys : List String := ["dataUrl", "blob", "data", "arrayBuffer"]

/-- Whether an entry of a file record is about the file, rather than its contents. -/
def isAbout (entry : String × Value) : Bool :=
  !contentKeys.contains entry.1 &&
    (match entry.2 with
      | .bytes _ => false
      | _ => true)

/-- A file record without the contents. -/
def withoutContents (record : Value) : Except Fault Value :=
  match record with
  | .object fields => .ok (.object (fields.filter isAbout))
  | _ => .error .noAttribute

/-- The records of all stored files.  A storage that does not answer later is not listed. -/
def records (files : Option FileStorage) : Except Fault (List Value) :=
  match files with
  | none => .error (.notFound "No File Storage" "File storage is not available.")
  | some (.lists records true) => .ok records
  | some (.lists _ false) => .error (.wrongType "the storage does not answer later")
  | some .fails => .error .collaborator

/-- Lists the stored files without their contents. -/
def listFiles (ctx : Context) : Except Fault Outcome := do
  let _ ← ctx.parse listFilesGrammar
  let files ← (← records ctx.collaborators.files).mapM withoutContents
  if files.isEmpty then return .info "📁" "Files" "No files in storage." (.list [])
  return .info "📁" ("Files (" ++ toString files.length ++ ")")
    (← Markup.jsonBlock (.list files)) (.list files)

/-! ## Changing the composition -/

/-- What `/set-comp` accepts. -/
def changeGrammar : Grammar where
  command := "set-comp"
  options := [
    .taking "title" "--title" "-t" Converter.text "\"My Video\"",
    .taking "fps" "--fps" "-f" (Converter.wholeBetween (.int Limits.fps.1) (.int Limits.fps.2))
      "30",
    .taking "width" "--width" "-w" (Converter.wholeBetween (.int 1) (.int Limits.maxWidth))
      "1920",
    .taking "height" "--height" "-h" (Converter.wholeBetween (.int 1) (.int Limits.maxHeight))
      "1080"]
  fields := ["title", "fps", "width", "height"]

/-- The report of a new title, none if it is not new. -/
def titleChange (name : Value) (title : Option String) : List String :=
  match title with
  | none => []
  | some t =>
    if name.isText t then []
    else ["Title: \"" ++ name.display ++ "\" → \"" ++ t ++ "\""]

/-- The report of a new number, none if it is not new. -/
def numberChange (label unit : String) (old : Int) (new : Option Int) : List String :=
  match new with
  | none => []
  | some n =>
    if n = old then []
    else [label ++ ": " ++ toString old ++ unit ++ " → " ++ toString n ++ unit]

/-- The report of all changes. -/
def changeLines (project : Project) (c : Composition) (args : Arguments) : List String :=
  titleChange project.name (args.text? "title") ++
  numberChange "FPS" "" c.fps (args.int? "fps") ++
  numberChange "Width" "px" c.width (args.int? "width") ++
  numberChange "Height" "px" c.height (args.int? "height")

/-- The project with the title, the frame rate and the canvas that are given. -/
def changed (project : Project) (c : Composition) (args : Arguments) : Project :=
  { project with
    name := (args.get? "title").getD project.name
    composition := some { c with
      fps := (args.int? "fps").getD c.fps
      width := (args.int? "width").getD c.width
      height := (args.int? "height").getD c.height } }

/-- Changes the title, the frame rate and the canvas. -/
def change (ctx : Context) : Except Fault Outcome := do
  let (project, composition) ← ctx.require
  let args ← ctx.parse changeGrammar
  if args.isEmpty then
    .error (.invalid "No Updates Specified"
      ("Please specify at least one property to update.\n\n" ++
        "Available options: --title, --fps, --width, --height"))
  let diff := changeLines project composition args
  if diff.isEmpty then
    return .info "ℹ️" "Composition Unchanged"
      "The composition already has the requested values. Nothing was changed."
  return .done "Composition Updated"
    ("Composition properties have been updated:\n\n" ++ Markup.bulletList diff)
    (some (changed project composition args)) .null diff

/-! ## Zooming -/

/-- What `/zoom-tl` accepts. -/
def zoomGrammar : Grammar where
  command := "zoom-tl"
  positional := "percentage"
  fields := ["percentage"]

/-- Examples of the command. -/
def zoomExample : String := "Example: `/zoom-tl 50%` or `/zoom-tl 150`"

/-- The number in a percentage, with or without percent signs after it. -/
def percentage? (raw : String) : Option Binary64 :=
  match Converter.float? (String.ofList (Text.dropEndWhile (· == '%') raw.toList)) with
  | none => none
  | some x => if x.compareInt? 0 = some .gt then some x else none

/-- The percentage that a command needs. -/
def requirePercentage (args : Arguments) : Except Fault Binary64 :=
  match args.text? "percentage" with
  | none =>
    .error (.invalid "Missing Parameter"
      ("Please specify a zoom percentage. Usage: `/zoom-tl <percentage>`\n\n" ++ zoomExample))
  | some raw =>
    match percentage? raw with
    | some x => .ok x
    | none =>
      .error (.invalid "Invalid Percentage"
        ("Invalid percentage value '" ++ raw ++ "'. Please provide a positive number.\n\n" ++
          zoomExample))

/-- The percentage nearest to `x` within the limits. -/
def clampPercentage (x : Binary64) : Binary64 :=
  let (low, high) := Limits.zoomPercent
  if x.compare? low = some .lt then low
  else if x.compare? high = some .gt then high
  else x

/-- A percentage as a whole number, a half to the even one. -/
def wholePercent (x : Binary64) : String :=
  match x.nearest? with
  | some n => toString n ++ "%"
  | none => ""

/-- The answer to a zoom. -/
def zoomMessage (requested clamped : Binary64) : String :=
  let (low, high) := Limits.zoomPercent
  "Timeline zoom set to " ++ wholePercent clamped ++ "." ++
  (if clamped.compare? requested = some .eq then ""
   else "\n\n⚠️ *Zoom level was clamped from " ++ requested.briefText ++ "% to " ++
    wholePercent clamped ++ " (valid range: " ++ low.briefText ++ "%-" ++ high.briefText ++ "%)*")

/-- Sets the zoom level of the timeline. -/
def zoom (ctx : Context) : Except Fault Outcome := do
  let (project, _) ← ctx.require
  let requested ← requirePercentage (← ctx.parse zoomGrammar)
  let clamped := clampPercentage requested
  let level := Value.float (clamped.div (Binary64.ofInt 100))
  let revised :=
    if project.appState.zoomLevel.same level then none
    else some (project.withState fun s => { s with zoomLevel := level })
  return { Outcome.info "🔍" "Timeline Zoom Updated" (zoomMessage requested clamped) with
    revised }

end Montage.Settings
