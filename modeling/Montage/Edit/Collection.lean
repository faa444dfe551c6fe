/-
Collections: the lists of a project whose items are found by their id.

A collection names one of four lists: the pages, the audio tracks, the notes, or
the elements of the first page with an id.  `items` reads the list and `replace`
puts another one in its place; adding, replacing and removing items are written
once for all four.
-/
import Montage.Project.Basic
import Montage.Edit.Move

namespace Montage

/-- A list of a project. -/
inductive Collection where
  | pages
  | audios
  | notes
  | elements (page : Value)

/-- Changes the first item for which `p` holds. -/
def updateFirst {α : Type} (p : α → Bool) (f : α → α) : List α → List α
  | [] => []
  | x :: r => if p x then f x :: r else x :: updateFirst p f r

namespace Collection

/-- What a collection holds. -/
abbrev Item : Collection → Type
  | pages => Page
  | audios => Audio
  | notes => Note
  | elements _ => Element

instance instEntityItem : (c : Collection) → Entity c.Item
  | pages => inferInstanceAs (Entity Page)
  | audios => inferInstanceAs (Entity Audio)
  | notes => inferInstanceAs (Entity Note)
  | elements _ => inferInstanceAs (Entity Element)

/-- What an item is called in messages. -/
def label : Collection → String
  | pages => "Page"
  | audios => "Audio Track"
  | notes => "Note"
  | elements _ => "Element"

/-- How to find the items. -/
def listHint : Collection → String
  | pages => "Use `/ls-comp` to see available pages."
  | audios => "Use `/ls-comp` to see available audio tracks."
  | notes => "Use `/ls-notes` to see available notes."
  | elements _ => "Use `/ls-page` to see the elements of a page."

/-- The items. -/
def items : (c : Collection) → Project → Except Fault (List c.Item)
  | pages, p => do return (← p.requireComposition).pages
  | audios, p => do return (← p.requireComposition).audios
  | notes, p => .ok p.notes
  | elements page, p => do
    match (← p.requireComposition).pages.find? (Entity.hasId · page) with
    | some q => return q.elements
    | none =>
      .error (.notFound "Page Not Found" ("Page with ID '" ++ page.display ++ "' not found."))

/-- The project with other items in the collection. -/
def replace : (c : Collection) → Project → List c.Item → Project
  | pages, p, items =>
    { p with composition := p.composition.map fun c => { c with pages := items } }
  | audios, p, items =>
    { p with composition := p.composition.map fun c => { c with audios := items } }
  | notes, p, items => { p with notes := items }
  | elements page, p, items =>
    { p with composition := p.composition.map fun c =>
        { c with
          pages := updateFirst (Entity.hasId · page) (·.withElements items) c.pages } }

/-- The ids of the items. -/
def ids (c : Collection) (p : Project) : Except Fault (List Value) := do
  return (← c.items p).map Entity.id

/-- The place of the first item with an id. -/
def place? {α : Type} [Entity α] (items : List α) (id : Value) : Option Nat :=
  items.findIdx? fun x => Entity.hasId x id

/-- The place of the first item with an id, and the item. -/
def require (c : Collection) (p : Project) (id : Value) : Except Fault (Nat × c.Item) := do
  let items ← c.items p
  match place? items id with
  | none => missing
  | some i =>
    match items[i]? with
    | some x => return (i, x)
    | none => missing
where
  /-- The problem that no item has the id. -/
  missing {α : Type} : Except Fault α :=
    .error (.notFound (c.label ++ " Not Found")
      (c.label ++ " with ID '" ++ id.display ++ "' not found.\n\n" ++ c.listHint))

/-- The project with one more item at the end, whose id must be new. -/
def append (c : Collection) (p : Project) (x : c.Item) : Except Fault Project := do
  let items ← c.items p
  if items.any fun y => Entity.hasId y (Entity.id x) then
    .error (.invalid "Duplicate ID"
      (c.label ++ " ID '" ++ (Entity.id x).display ++ "' already exists."))
  return c.replace p (items ++ [x])

/-- The project with more items before place `index`, or at the nearer end. -/
def insert (c : Collection) (p : Project) (index : Int) (xs : List c.Item) :
    Except Fault Project := do
  let items ← c.items p
  let i := clampTo items.length index
  return c.replace p (items.take i ++ xs ++ items.drop i)

/-- The project with another item at a place. -/
def replaceAt (c : Collection) (p : Project) (index : Int) (x : c.Item) :
    Except Fault Project := do
  let items ← c.items p
  return c.replace p (items.set (← placeOf items.length index) x)

/-- The project without the items that have one of the ids, which are looked up by hashing. -/
def remove (c : Collection) (p : Project) (ids : List Value) : Except Fault Project := do
  Value.requireHashable ids
  let items ← c.items p
  Value.requireHashable (items.map Entity.id)
  return c.replace p (items.filter fun x => !ids.any (Entity.hasId x))

/-- The problem that no page has an element with the id. -/
def noElement (id : Value) : Fault :=
  .notFound "Element Not Found"
    ("Element with ID '" ++ id.display ++ "' not found in the composition.")

/-- The id of the page that holds the first element with an id. -/
def owning (p : Project) (element : Value) : Except Fault Value := do
  match (← p.requireComposition).findElement? element with
  | some (page, _) => return page.id
  | none => .error (noElement element)

end Collection

end Montage
