/-
Projects written as documents.

The known entries come first, in a fixed order, then the entries that the
document had beside them.  Absent fields of an element, and an absent background
or time of change, are left out; everything else is written, `null` included.
-/
import Montage.Project.Basic

namespace Montage.Document

/-- The entries of `extra` set among the known ones. -/
def withExtra (known extra : List (String × Value)) : List (String × Value) :=
  extra.foldl (fun fields f => Value.put f.1 f.2 fields) known

/-- The entry, unless its value is absent. -/
def ifPresent (key : String) (v : Value) : List (String × Value) :=
  if v.isNull then [] else [(key, v)]

/-- The document of an element. -/
def ofElement (e : Element) : Value :=
  .object (withExtra
    ([("id", e.id), ("type", .text e.kind.name)] ++
      Element.Field.keyed.flatMap fun f => ifPresent f.key (e.get f))
    e.extra.entries)

/-- The document of a page. -/
def ofPage (p : Page) : Value :=
  .object ([("id", p.id), ("name", p.name), ("duration", p.duration)] ++
    ifPresent "backgroundColor" p.backgroundColor ++
    [("elements", .list (p.elements.map ofElement))])

/-- The document of an audio track. -/
def ofAudio (a : Audio) : Value :=
  .object (("id", a.id) :: Audio.Field.keyed.map fun f => (f.key, a.get f))

/-- The document of a note. -/
def ofNote (n : Note) : Value :=
  .object ([("id", n.id), ("time", n.time), ("text", n.text), ("createdAt", n.createdAt)] ++
    ifPresent "updatedAt" n.updatedAt)

/-- A composition of documents. -/
def compositionOf (fps width height : Value) (pages audios : List Value) : Value :=
  .object [
    ("fps", fps), ("width", width), ("height", height), ("pages", .list pages),
    ("audios", .list audios)]

/-- The document of a composition. -/
def ofComposition (c : Composition) : Value :=
  compositionOf (.int c.fps) (.int c.width) (.int c.height) (c.pages.map ofPage)
    (c.audios.map ofAudio)

/-- The document of an editor state. -/
def ofAppState (s : AppState) : Value :=
  .object (withExtra
    [("selectedPageId", s.selectedPageId), ("selectedElementId", s.selectedElementId),
     ("currentTime", s.currentTime), ("zoomLevel", s.zoomLevel)]
    s.extra)

/-- A project of documents. -/
def projectWith (id : String) (name composition : Value) (notes : List Value) (appState : Value) :
    Value :=
  .object [
    ("id", .text id), ("name", name), ("composition", composition), ("notes", .list notes),
    ("appState", appState)]

/-- The document of a project. -/
def ofProject (p : Project) : Value :=
  projectWith p.id p.name ((p.composition.map ofComposition).getD .null) (p.notes.map ofNote)
    (ofAppState p.appState)

end Montage.Document
