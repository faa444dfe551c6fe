/-
The built-in commands.
-/
import Montage.Command.Catalog
import Montage.Command.Elements
import Montage.Command.Notes
import Montage.Command.Pages
import Montage.Command.Settings
import Montage.Command.Tracks

namespace Montage.Builtin

/-- The usage of a command: its name and what may stand after it. -/
def usage (name : String) (parts : List String) : String :=
  "/" ++ " ".intercalate (name :: parts)

/-- A command that runs without asking. -/
def plain (name description usage : String) (handler : Handler) : Command :=
  { name, description, usage, handler }

/-- A command that is run only if the user agrees. -/
def asking (name description usage question : String) (handler : Handler) : Command :=
  { name, description, usage, handler
    requiresConfirmation := true
    confirmationMessage := some question }

/-- The commands on audio tracks. -/
def tracks : List Command := [
  plain "new-audio" "Add an audio track to the composition"
    (usage "new-audio" ["--src|-s url", "[--volume|-v 0-1]", "[--trim-before|-b time]",
      "[--trim-after|-a time]", "[--playback-rate|-r rate]", "[--muted|-m]", "[--loop|-l]",
      "[--tone-frequency|-f 0.01-2]", "[--delay|-d time]", "[--duration|-dr time]"])
    Tracks.create,
  plain "set-audio" "Update an audio track and optionally move it in the track list"
    (usage "set-audio" ["--id|-i id", "[--src|-s url]", "[--volume|-v 0-1]",
      "[--trim-before|-b time]", "[--trim-after|-a time]", "[--playback-rate|-r rate]",
      "[--muted|-m true|false]", "[--loop|-l true|false]", "[--tone-frequency|-f 0.01-2]",
      "[--delay|-d time]", "[--duration|-dr time]", "[--before|-be n|id]", "[--after|-af n|id]"])
    (.ofExcept Tracks.change),
  asking "del-audio" "Delete an audio track"
    (usage "del-audio" ["--id|-i id", "[--yes|-y]"])
    "Are you sure you want to delete this audio track?"
    (.ofExcept Tracks.delete)]

/-- The commands on elements. -/
def elements : List Command := [
  plain "new-text" "Add a text element to the selected page"
    (usage "new-text" ["[--text|-t \"text\"]", "[--font-size|-fs size]", "[--color|-c color]",
      "[--font-family|-ff family]", "[--font-weight|-fw weight]", "[--text-align|-ta align]",
      "[--left|-l x]", "[--top|-tp y]", "[--width|-w width]", "[--copy id]"])
    (Elements.create Elements.text),
  plain "new-image" "Add an image element to the selected page"
    (usage "new-image" ["--src|-s url", "[--left|-l x]", "[--top|-tp y]", "[--width|-w width]",
      "[--height|-h height]", "[--opacity|-o opacity]", "[--rotation|-r degrees]", "[--copy id]"])
    (Elements.create Elements.image),
  plain "new-video" "Add a video element to the selected page"
    (usage "new-video" ["--src|-s url", "[--left|-l x]", "[--top|-tp y]", "[--width|-w width]",
      "[--height|-h height]", "[--opacity|-o opacity]", "[--rotation|-r degrees]",
      "[--delay|-d time]"])
    (Elements.create Elements.video),
  plain "set-element" "Update an element and optionally move it within its page"
    (usage "set-element" ["[id]", "[--id|-i id]", "[--before|-b n|id]", "[--after|-a n|id]",
      "[--left|-l x]", "[--top|-tp y]", "[--width|-w w]", "[--height|-h h]", "[--z-index|-z n]",
      "[--opacity|-o 0-1]", "[--rotation|-r deg]", "[--text|-t text]", "[--src|-s url]",
      "[--font-size|-fs n]", "[--color|-c color]", "[--font-family|-ff family]",
      "[--font-weight|-fw weight]", "[--text-align|-ta align]", "[--delay|-d time]",
      "[--duration|-dr time]"])
    (.ofExcept Elements.change),
  asking "del-elem" "Delete an element (the selected one by default)"
    (usage "del-elem" ["[--id|-i id]", "[--yes|-y]"])
    "Are you sure you want to delete this element?"
    (.ofExcept Elements.delete)]

/-- The commands on notes. -/
def notes : List Command := [
  plain "new-note" "Add a note at a point in time"
    (usage "new-note" ["--text|-txt \"text\"", "[--time|-t time]"])
    Notes.create,
  plain "set-note" "Update the text or time of a note"
    (usage "set-note" ["--id|-i id", "[--text|-txt \"text\"]", "[--time|-t time]"])
    (.ofExcept Notes.change),
  asking "del-note" "Delete a note"
    (usage "del-note" ["--id|-i id", "[--yes|-y]"])
    "Are you sure you want to delete this note?"
    (.ofExcept Notes.delete),
  plain "ls-notes" "List notes sorted by time, optionally filtered by text"
    (usage "ls-notes" ["[--query|-q text]"])
    (.ofExcept Notes.list)]

/-- The commands on pages. -/
def pages : List Command := [
  plain "new-page" "Add blank page(s) after the selected page, or copies of an existing page"
    (usage "new-page" ["[--num|-n 1-20]", "[--copy id]"])
    Pages.create,
  plain "set-page" "Update a page and optionally move it"
    (usage "set-page" ["[id]", "[--id|-i id]", "[--new-id id]", "[--name|-n name]",
      "[--duration|-d time]", "[--background-color|-bg color]", "[--before|-b n|id]",
      "[--after|-a n|id]"])
    (.ofExcept Pages.change),
  asking "del-page" "Delete the selected page (or --num pages starting at it)"
    (usage "del-page" ["[--id|-i id]", "[--num|-n n]", "[--yes|-y]"])
    "Are you sure you want to delete the page(s)?"
    (.ofExcept Pages.delete),
  plain "ls-page" "Show the JSON of a page (the selected one by default)"
    (usage "ls-page" ["[--id|-i id]"])
    (.ofExcept Pages.display)]

/-- The commands on the composition, the stored files and the timeline. -/
def settings : List Command := [
  plain "ls-comp" "Show the composition JSON"
    (usage "ls-comp" ["[--interactive|-i]"])
    Settings.display,
  plain "set-comp" "Update the project title and composition settings"
    (usage "set-comp" ["[--title|-t title]", "[--fps|-f 1-120]", "[--width|-w 1-7680]",
      "[--height|-h 1-4320]"])
    (.ofExcept Settings.change),
  plain "ls-files" "List stored files (metadata only)"
    (usage "ls-files" [])
    (.ofExcept Settings.listFiles),
  plain "zoom-tl" "Set the timeline zoom level"
    (usage "zoom-tl" ["<percentage>"])
    (.ofExcept Settings.zoom)]

/-- What `/help` accepts. -/
def helpGrammar : Grammar where
  command := "help"
  fields := []

/-- Lists the commands of the catalog. -/
def listCommands (ctx : Context) : Except Fault Outcome := do
  let _ ← ctx.parse helpGrammar
  return .info "📖" "Available Commands" (Catalog.helpText ctx.catalog)

/-- The command that lists the commands. -/
def help : Command :=
  plain "help" "Show available commands" (usage "help" []) (.ofExcept listCommands)

/-- All built-in commands. -/
def commands : List Command := tracks ++ elements ++ notes ++ pages ++ settings ++ [help]

/-- The catalog of the built-in commands. -/
def catalog : Catalog := .ofList commands

end Montage.Builtin
