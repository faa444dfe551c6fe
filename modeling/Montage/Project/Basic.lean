/-
Projects.

A project holds a composition (frame rate, canvas, pages and audio tracks), the
notes, and the state of the editor: what is selected, the playhead and the zoom.
A selection names a page or an element by id and may name one that is not there;
`selectedPage?` then falls back to the first page.
-/
import Montage.Project.Page
import Montage.Project.Audio
import Montage.Project.Note

namespace Montage

/-! ## Limits and defaults -/

namespace Limits

/-- The frame rates that a command may set. -/
def fps : Int × Int := (1, 120)

/-- The widest canvas. -/
def maxWidth : Int := 7680

/-- The highest canvas. -/
def maxHeight : Int := 4320

/-- The most pages that one command adds. -/
def maxNewPages : Int := 20

/-- The most pages that one command deletes. -/
def maxDeletedPages : Int := 50

/-- The zoom levels in percent. -/
def zoomPercent : Binary64 × Binary64 := (Binary64.ofInt 10, Binary64.ofInt 1000)

/-- The frame rate of a document without one. -/
def defaultFps : Int := 30

/-- The width of a document without one. -/
def defaultWidth : Int := 1920

/-- The height of a document without one. -/
def defaultHeight : Int := 1080

/-- The seconds that a new page or audio track lasts. -/
def defaultSeconds : Int := 5

end Limits

/-! ## The parts of a project -/

/-- The timeline: canvas, frame rate, pages and audio tracks. -/
structure Composition where
  fps : Int := Limits.defaultFps
  width : Int := Limits.defaultWidth
  height : Int := Limits.defaultHeight
  pages : List Page := []
  audios : List Audio := []

/-- The state of the editor. -/
structure AppState where
  selectedPageId : Value := .null
  selectedElementId : Value := .null
  /-- The frame of the playhead. -/
  currentTime : Value := .int 0
  zoomLevel : Value := .float (Binary64.ofInt 1)
  /-- The entries of the document that are no field. -/
  extra : List (String × Value) := []

/-- A project. -/
structure Project where
  id : String
  name : Value
  composition : Option Composition := none
  notes : List Note := []
  appState : AppState := {}

namespace Composition

/-- The frames of all pages together. -/
def totalFrames (c : Composition) : Except Fault Number :=
  c.pages.foldlM (fun sum p => do sum.add (← p.duration.toNumber)) (.int 0)

/-- The first element with an id, and its page. -/
def findElement? (c : Composition) (id : Value) : Option (Page × Element) :=
  c.pages.findSome? fun p => (p.elements.find? (Entity.hasId · id)).map fun e => (p, e)

/-- The ids of all elements. -/
def elementIds (c : Composition) : List Value :=
  c.pages.flatMap fun p => p.elements.map (·.id)

end Composition

namespace Project

/-- The frame rate, the default one if none is set. -/
def fps (p : Project) : Int :=
  match p.composition with
  | none => Limits.defaultFps
  | some c => if c.fps = 0 then Limits.defaultFps else c.fps

/-- The pages, none without a composition. -/
def pages (p : Project) : List Page :=
  match p.composition with
  | none => []
  | some c => c.pages

/-- The selected page, the first one if the selection names none. -/
def selectedPage? (p : Project) : Option Page :=
  match p.pages with
  | [] => none
  | first :: rest =>
    some (((first :: rest).find? (Entity.hasId · p.appState.selectedPageId)).getD first)

/-- The composition, or the problem that there is none. -/
def requireComposition (p : Project) : Except Fault Composition :=
  match p.composition with
  | some c => .ok c
  | none => .error (.problem .noProject)

/-- The same project with another editor state. -/
def withState (p : Project) (f : AppState → AppState) : Project :=
  { p with appState := f p.appState }

end Project

/-- The project, or the problem that there is none. -/
def requireProject (p : Option Project) : Except Fault Project :=
  match p with
  | some p => .ok p
  | none => .error (.problem .noProject)

end Montage
