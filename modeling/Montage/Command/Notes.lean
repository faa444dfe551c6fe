/-
Commands on notes: adding one, changing one, deleting one, listing them.
-/
import Montage.Command.Session
import Montage.Command.Report
import Montage.Document.Encode
import Montage.Options.Recurring
import Montage.Text.Infix

namespace Montage.Notes

/-! ## Options -/

/-- The text of a note. -/
def textOption : CommandOption :=
  .taking "text" "--text" "-txt" Converter.text "\"Fix the transition here\""

/-- The time of a note. -/
def timeOption : CommandOption := .taking "time" "--time" "-t" Converter.duration "1.5s"

/-- What `/new-note` accepts. -/
def createGrammar : Grammar where
  command := "new-note"
  options := [textOption, timeOption]
  fields := ["text", "time"]

/-- What `/set-note` accepts. -/
def changeGrammar : Grammar where
  command := "set-note"
  options := [.id, textOption, timeOption]
  fields := ["id", "text", "time"]

/-- What `/del-note` accepts. -/
def deleteGrammar : Grammar where
  command := "del-note"
  options := [.id, .yes]
  fields := ["id", "yes"]

/-- What `/ls-notes` accepts. -/
def listGrammar : Grammar where
  command := "ls-notes"
  options := [.taking "query" "--query" "-q" Converter.text "intro"]
  fields := ["query"]

/-! ## Adding, changing, deleting -/

/-- A text in quotes behind its name. -/
def textLine (v : Value) : String := "Text: \"" ++ v.display ++ "\""

/-- The answer to a note added to a project. -/
def added (project : Project) (note : Note) : Except Fault Outcome := do
  let revised ← Collection.notes.append project note
  let body := Markup.bulletList [
    "ID: " ++ note.id.display,
    "Time: " ++ (← Duration.textAt project.fps note.time),
    textLine note.text]
  return .done "Note Added" body (some revised) note.id

/-- The text that a new note needs. -/
def requireText (args : Arguments) : Except Fault String :=
  match args.nonempty? "text" with
  | some text => .ok text
  | none =>
    .error (.invalid "Missing Text"
      "Note text is required.\n\nUsage: `/new-note --text \"note text\" [--time 1.5s]`")

/-- Adds a note at the given time, or at the playhead. -/
def create : Handler := fun ctx => do
  let (project, _) ← ctx.require
  let args ← ctx.parse createGrammar
  let text ← requireText args
  let time := (args.get? "time").getD project.appState.currentTime
  let id ← Act.draw (drawId ctx.ids "note" (project.notes.map (·.id)))
  added project { id := .text id, time, text := .text text, createdAt := .text ctx.ids.now }

/-- The project with the time of the change put into a note that was changed. -/
def stamp (now : String) (u : Update Note) : Except Fault (Update Note) :=
  match u.revised with
  | none => .ok u
  | some p => do
    let stamped := { u.item with updatedAt := .text now }
    return { u with revised := some (← Collection.notes.replaceAt p u.newIndex stamped) }

/-- Changes the text or the time of a note. -/
def change (ctx : Context) : Except Fault Outcome := do
  let (project, _) ← ctx.require
  let args ← ctx.parse changeGrammar
  let id ← args.requireId "Missing Note ID"
    "Note ID is required.\n\nUsage: `/set-note --id note_id [--time 2s] [--text text]`"
  let changes := args.except ["id"]
  if changes.isEmpty then
    .error (.invalid "No Changes Specified" "At least one property must be specified to update.")
  let u ← Collection.notes.update project (.text id) changes (.int project.fps) ["time"] none
    .relative
  return .ofUpdate "Note" (← stamp ctx.ids.now u) project.notes.length

/-- Deletes a note. -/
def delete (ctx : Context) : Except Fault Outcome := do
  let (project, _) ← ctx.require
  let args ← ctx.parse deleteGrammar
  let id ← args.requireId "Missing Note ID"
    ("Note ID is required.\n\nUsage: `/del-note --id note_id`\n\n" ++
      "Use `/ls-notes` to see available notes.")
  let (_, note) ← Collection.notes.require project (.text id)
  let note : Note := note
  let revised ← Collection.notes.remove project [note.id]
  let lines := Markup.bulletList [
    "Time: " ++ (← Duration.textAt project.fps note.time),
    textLine note.text]
  return .done "Note Deleted"
    ("Note '" ++ note.id.display ++ "' has been deleted.\n\n" ++ lines ++
      "\n\nRemaining notes: " ++ toString revised.notes.length)
    (some revised) note.id

/-! ## Listing -/

/-- Whether the text of a note holds a query, both in lower case. -/
def mentions (query : String) (note : Note) : Except Fault Bool :=
  match note.text with
  | .text s => .ok (Text.contains (Text.lower s) query)
  | _ => .error .noAttribute

/-- The notes that mention a query, all of them without one. -/
def matching (query : Option String) (notes : List Note) : Except Fault (List Note) :=
  match query with
  | none => .ok notes
  | some q => notes.filterM (mentions (Text.lower q))

/-- The notes by their time, those of one time in the order of the document. -/
def byTime (notes : List Note) : Except Fault (List Note) := do
  let timed ← notes.mapM fun n => do return (← n.time.toNumber, n)
  return (timed.mergeSort fun a b => a.1.le b.1).map (·.2)

/-- The line that shows a note in a list. -/
def listLine (fps : Int) (note : Note) : Except Fault String := do
  return "[" ++ (← Duration.textAt fps note.time) ++ "] " ++ note.text.display ++
    " (" ++ note.id.display ++ ")"

/-- The answer when no note is listed. -/
def noneListed (query : Option String) : Outcome :=
  .info "📝" "Notes"
    (match query with
      | some q => "No notes match '" ++ q ++ "'."
      | none => "This project has no notes. Use `/new-note` to add one.")
    (.list [])

/-- Lists the notes by time. -/
def list (ctx : Context) : Except Fault Outcome := do
  let project ← requireProject ctx.project
  let args ← ctx.parse listGrammar
  let query := args.nonempty? "query"
  let notes ← byTime (← matching query project.notes)
  if notes.isEmpty then return noneListed query
  let lines ← notes.mapM (listLine project.fps)
  let title := match query with
    | some q => "Notes matching '" ++ q ++ "'"
    | none => "Notes"
  return .info "📝" title
    (Markup.plural notes.length "note" ++ ":\n\n" ++ Markup.bulletList lines)
    (.list (notes.map Document.ofNote))

end Montage.Notes
