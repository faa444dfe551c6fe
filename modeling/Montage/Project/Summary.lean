/-
The summary of a project.
-/
import Montage.Project.Basic
import Montage.Duration

namespace Montage.Project

/-- The lines that summarize a project: its length, its canvas, and what it holds. -/
def summary (p : Project) : Except Fault String := do
  let title := "Project: " ++ p.name.display
  match p.composition with
  | none => return title ++ " (no composition)"
  | some c =>
    let length ← Duration.textAt c.fps (.ofNumber (← c.totalFrames))
    return "\n".intercalate [
      title,
      "Duration: " ++ length,
      "Resolution: " ++ toString c.width ++ "x" ++ toString c.height ++ " @ " ++
        toString c.fps ++ "fps",
      "Pages: " ++ toString c.pages.length,
      "Audio tracks: " ++ toString c.audios.length,
      "Notes: " ++ toString p.notes.length]

end Montage.Project
