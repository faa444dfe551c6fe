/-
Commands on audio tracks: adding one, changing one, deleting one.
-/
import Montage.Command.Session
import Montage.Command.Report
import Montage.Options.Recurring

namespace Montage.Tracks

/-! ## Options -/

/-- The options for the numbers of a track. -/
def valueOptions : List CommandOption := [
  .taking "volume" "--volume" "-v" Converter.volume "0.8",
  .taking "trim_before" "--trim-before" "-b" Converter.duration "1s",
  .taking "trim_after" "--trim-after" "-a" Converter.duration "2s",
  .taking "playback_rate" "--playback-rate" "-r" Converter.positiveNumber "1.5",
  .taking "tone_frequency" "--tone-frequency" "-f" Converter.toneFrequency "1.2",
  .delay "2s",
  .length "10s"]

/-- The fields of a track that commands set. -/
def fields : List String :=
  ["src", "volume", "trim_before", "trim_after", "playback_rate", "muted", "loop",
   "tone_frequency", "delay", "duration"]

/-- What `/new-audio` accepts. -/
def createGrammar : Grammar where
  command := "new-audio"
  options := [.src] ++ valueOptions ++ [.flag "muted" "--muted" "-m", .flag "loop" "--loop" "-l"]
  fields := fields

/-- What `/set-audio` accepts. -/
def changeGrammar : Grammar where
  command := "set-audio"
  options := [.id, .src] ++ valueOptions ++ [
    .taking "muted" "--muted" "-m" Converter.truth "true",
    .taking "loop" "--loop" "-l" Converter.truth "false",
    .taking "before" "--before" "-be" Converter.position "2",
    .taking "after" "--after" "-af" Converter.position "audio-1700000000000-abc123xyz"]
  fields := ["id"] ++ fields ++ ["before", "after"]

/-- What `/del-audio` accepts. -/
def deleteGrammar : Grammar where
  command := "del-audio"
  options := [.id, .yes]
  fields := ["id", "yes"]

/-- The fields that count frames. -/
def frameFields : List String := ["delay", "duration", "trim_before", "trim_after"]

/-! ## Commands -/

/-- A yes or a no. -/
def yesNo (v : Value) : String := if v.isTruthy then "yes" else "no"

/-- The lines that describe a track. -/
def describe (a : Audio) (fps : Int) : Except Fault String := do
  return Markup.bulletList [
    "ID: " ++ a.id.display,
    "Source: " ++ a.src.display,
    "Volume: " ++ a.volume.display,
    "Delay: " ++ (← Duration.textAt fps a.delay),
    "Duration: " ++ (← Duration.textAt fps a.duration),
    "Trim: " ++ (← Duration.textAt fps a.trimBefore) ++ " / " ++
      (← Duration.textAt fps a.trimAfter),
    "Playback rate: " ++ a.playbackRate.display ++ "x",
    "Tone frequency: " ++ a.toneFrequency.display,
    "Muted: " ++ yesNo a.muted,
    "Loop: " ++ yesNo a.loop]

/-- A track with a source, of the usual length. -/
def blank (id src : String) (fps : Int) : Audio :=
  { id := .text id, src := .text src, duration := defaultFrames fps }

/-- The source that a new track needs. -/
def requireSource (args : Arguments) : Except Fault String :=
  match args.nonempty? "src" with
  | some src => .ok src
  | none =>
    .error (.invalid "Missing Source"
      ("Audio source is required.\n\n" ++
        "Usage: `/new-audio --src url [--volume 0.8] [--delay 2s] [--duration 10s]`"))

/-- The answer to a track added to a project. -/
def added (project : Project) (audio : Audio) : Except Fault Outcome := do
  let revised ← Collection.audios.append project audio
  let body := "Added audio track to the composition.\n\n" ++ (← describe audio project.fps)
  return .done "Audio Track Added" body (some revised) audio.id

/-- Adds a track with a source and the options' values. -/
def create : Handler := fun ctx => do
  let (project, _) ← ctx.require
  let args ← ctx.parse createGrammar
  let src ← requireSource args
  let id ← Act.draw (drawId ctx.ids "audio" (← Collection.audios.ids project))
  added project (← Changes.assign (blank id src project.fps) (args.except ["src"]))

/-- Changes fields of a track and moves it in the list. -/
def change (ctx : Context) : Except Fault Outcome := do
  let (project, composition) ← ctx.require
  let args ← ctx.parse changeGrammar
  let id ← args.requireId "Missing Audio ID"
    "Audio track ID is required.\n\nUsage: `/set-audio --id audio_id [--volume 0.5] [--after 1]`"
  let move ← args.move?
  let changes := args.except ["id", "before", "after"]
  if changes.isEmpty && move.isNone then .error nothingToUpdate
  let u ← Collection.audios.update project (.text id) changes (.int project.fps) frameFields
    move .relative
  return .ofUpdate (α := Audio) "Audio Track" u composition.audios.length

/-- Deletes a track. -/
def delete (ctx : Context) : Except Fault Outcome := do
  let (project, _) ← ctx.require
  let args ← ctx.parse deleteGrammar
  let id ← args.requireId "Missing Audio ID"
    "Audio track ID is required.\n\nUsage: `/del-audio --id audio_id [--yes]`"
  let (_, audio) ← Collection.audios.require project (.text id)
  let audio : Audio := audio
  let revised ← Collection.audios.remove project [audio.id]
  let lines := Markup.bulletList [
    "Source: " ++ audio.src.display,
    "Volume: " ++ audio.volume.display,
    "Duration: " ++ (← Duration.textAt project.fps audio.duration)]
  return .done "Audio Track Deleted"
    ("Deleted audio track '" ++ audio.id.display ++ "':\n\n" ++ lines)
    (some revised) audio.id

end Montage.Tracks
