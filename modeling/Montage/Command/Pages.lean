/-
Commands on pages: adding blank pages or copies, changing a page, deleting
pages, showing one.
-/
import Montage.Command.Session
import Montage.Command.Report
import Montage.Document.Encode
import Montage.Options.Recurring

namespace Montage.Pages

/-! ## Options -/

/-- What `/new-page` accepts. -/
def createGrammar : Grammar where
  command := "new-page"
  options := [
    .taking "num" "--num" "-n" (Converter.wholeBetween (.int 1) (.int Limits.maxNewPages)) "3",
    .taking "copy" "--copy" "" Converter.text "page-1700000000000-abc123xyz"]
  fields := ["num", "copy"]

/-- What `/set-page` accepts. -/
def changeGrammar : Grammar where
  command := "set-page"
  options := [
    .pageId,
    .taking "new_id" "--new-id" "" Converter.text "intro",
    .taking "name" "--name" "-n" Converter.text "\"Intro\"",
    .taking "duration" "--duration" "-d" Converter.duration "5s",
    .taking "background_color" "--background-color" "-bg" Converter.color "\"#000000\"",
    .taking "before" "--before" "-b" Converter.position "1",
    .taking "after" "--after" "-a" Converter.position "1"]
  positional := "target"
  fields := ["target", "id", "new_id", "name", "duration", "background_color", "before", "after"]

/-- What `/del-page` accepts. -/
def deleteGrammar : Grammar where
  command := "del-page"
  options := [
    .pageId,
    .taking "num" "--num" "-n" (Converter.wholeBetween (.int 1) (.int Limits.maxDeletedPages)) "2",
    .yes]
  fields := ["id", "num", "yes"]

/-- What `/ls-page` accepts. -/
def displayGrammar : Grammar where
  command := "ls-page"
  options := [.pageId]
  fields := ["id", "yes"]

/-! ## The page that a command is about -/

/-- The problem that the composition has no pages. -/
def noPages : Fault :=
  .notFound "No Pages" "The composition has no pages. Use `/new-page` to add pages."

/-- The page with the first id given, or else the selected one. -/
def target (project : Project) (candidates : List (Option String)) : Except Fault Page :=
  match project.selectedPage?, candidates.findSome? id with
  | none, _ => .error noPages
  | some page, none => .ok page
  | some _, some id => do return (← Collection.pages.require project (.text id)).2

/-- The number of pages that the options ask for. -/
def count (args : Arguments) : Nat := ((args.int? "num").getD 1).toNat

/-- The word for a number of pages. -/
def noun (n : Nat) : String := if n = 1 then "Page" else "Pages"

/-- The project with another page selected and no element. -/
def withSelected (project : Project) (id : Value) : Project :=
  project.withState fun s => { s with selectedPageId := id, selectedElementId := .null }

/-! ## Adding -/

/-- Copies of elements under fresh ids, and the ids taken then. -/
def copyElements (source : IdSource) (taken : List Value) :
    List Element → Drawing (List Element × List Value)
  | [] => return ([], taken)
  | e :: rest => do
    let id := Value.text (← drawId source e.kind.name taken)
    let (copies, taken) ← copyElements source (id :: taken) rest
    return ({ e with id } :: copies, taken)

/-- The name of the `i`-th copy of a page. -/
def copyName (page : Page) (i : Nat) : String :=
  page.name.display ++ " Copy" ++ (if i = 0 then "" else " " ++ toString (i + 1))

/-- Copies of a page, from the `i`-th on. -/
def copies (source : IdSource) (page : Page) (takenPages takenElements : List Value) :
    (n : Nat) → (i : Nat) → Drawing (List Page)
  | 0, _ => return []
  | n + 1, i => do
    let (elements, takenElements) ← copyElements source takenElements page.elements
    let id := Value.text (← drawId source "page" takenPages)
    let rest ← copies source page (id :: takenPages) takenElements n (i + 1)
    return { page.withElements elements with id, name := .text (copyName page i) } :: rest

/-- Blank pages, named from the `number`-th on. -/
def blanks (source : IdSource) (fps : Int) (taken : List Value) :
    (n : Nat) → (number : Nat) → Drawing (List Page)
  | 0, _ => return []
  | n + 1, number => do
    let page ← blankPage source (defaultFrames fps) (.text ("Page " ++ toString number)) taken
    let rest ← blanks source fps (page.id :: taken) n (number + 1)
    return page :: rest

/-- The page to copy, if one is named. -/
def copySource (c : Composition) (args : Arguments) : Except Fault (Option Page) :=
  match args.nonempty? "copy" with
  | none => .ok none
  | some id =>
    match c.pages.find? (Entity.hasId · (.text id)) with
    | some page => .ok (some page)
    | none =>
      .error (.notFound "Source Page Not Found"
        ("Cannot find page with ID '" ++ id ++ "' to copy from."))

/-- New pages: copies of a page, or blank ones. -/
def draft (ids : IdSource) (project : Project) (c : Composition) (source : Option Page) (n : Nat) :
    Drawing (List Page) :=
  let taken := c.pages.map (·.id)
  match source with
  | some page => copies ids page taken c.elementIds n 0
  | none => blanks ids project.fps taken n (c.pages.length + 1)

/-- The place after the selected page. -/
def insertionPlace (project : Project) : Nat :=
  match project.selectedPage? with
  | some page => ((Collection.place? project.pages page.id).map (· + 1)).getD 0
  | none => 0

/-- The answer to pages added to a project. -/
def added (project : Project) (source : Option Page) (pages : List Page) :
    Except Fault Outcome := do
  let place := insertionPlace project
  let inserted ← Collection.pages.insert project place pages
  match pages with
  | [] => .error .indexOutOfRange
  | first :: _ =>
    let n := pages.length
    let position := if place = 0 then "at the beginning" else "after page " ++ toString place
    let copied := match source with
      | some page => " (copied from page \"" ++ page.name.display ++ "\")"
      | none => ""
    return .done (toString n ++ " New " ++ noun n ++ " Added")
      (Markup.plural n "page" ++ " added " ++ position ++ copied ++
        ". The first new page is now selected.")
      (some (withSelected inserted first.id)) first.id

/-- Adds pages after the selected one and selects the first of them. -/
def create : Handler := fun ctx => do
  let (project, composition) ← ctx.require
  let args ← ctx.parse createGrammar
  let source ← copySource composition args
  let pages ← Act.draw (draft ctx.ids project composition source (count args))
  added project source pages

/-! ## Changing -/

/-- The new id of a page, if one is given that differs from its id. -/
def newId? (project : Project) (page : Page) (args : Arguments) : Except Fault (Option String) :=
  match args.text? "new_id" with
  | none => .ok none
  | some id =>
    if page.id.isText id then .ok none
    else if (Collection.place? project.pages (.text id)).isSome then
      .error (.invalid "Duplicate ID" ("Page ID '" ++ id ++ "' already exists."))
    else .ok (some id)

/-- The project in which the selection follows a page to its new id. -/
def reselect (oldId : Value) (newId : String) (project : Project) : Project :=
  if project.appState.selectedPageId.same oldId then
    project.withState fun s => { s with selectedPageId := .text newId }
  else project

/-- Changes fields of a page and its id, and moves it. -/
def change (ctx : Context) : Except Fault Outcome := do
  let (project, composition) ← ctx.require
  let args ← ctx.parse changeGrammar
  let page ← target project [args.nonempty? "id", args.nonempty? "target"]
  let move ← args.move?
  let newId ← newId? project page args
  let changes := args.except ["target", "id", "new_id", "before", "after"] ++
    (newId.map fun id => ("id", Value.text id)).toList
  if changes.isEmpty && move.isNone && (args.get? "new_id").isNone then .error nothingToUpdate
  let u ← Collection.pages.update project page.id changes (.int project.fps) ["duration"] move
    .relative
  let revised := match newId with
    | some id => u.revised.map (reselect page.id id)
    | none => u.revised
  return .ofUpdate (α := Page) "Page" { u with revised } composition.pages.length

/-! ## Deleting -/

/-- The project after its selected page was deleted with others: the page at their place is
selected, or the last one. -/
def selectAt (project : Project) (place : Nat) : Except Fault Project :=
  let pages := project.pages
  match pages[min place (pages.length - 1)]? with
  | some page => .ok (withSelected project page.id)
  | none => .error .indexOutOfRange

/-- The project without some pages, with a page selected if the selected one was among them. -/
def without (project : Project) (place : Nat) (ids : List Value) : Except Fault Project := do
  let remaining ← Collection.pages.remove project ids
  if project.selectedPage?.any fun page => ids.any (Entity.hasId page) then selectAt remaining place
  else return remaining

/-- Deletes a page and those after it. -/
def delete (ctx : Context) : Except Fault Outcome := do
  let (project, composition) ← ctx.require
  let args ← ctx.parse deleteGrammar
  let page ← target project [args.nonempty? "id"]
  let (place, _) ← Collection.pages.require project page.id
  let doomed := (composition.pages.drop place).take (count args)
  if composition.pages.length ≤ doomed.length then
    .error (.invalid "Cannot Delete All Pages"
      "You cannot delete all pages from the project. At least one page must remain.")
  let revised ← without project place (doomed.map (·.id))
  match revised.selectedPage? with
  | none => .error .noAttribute
  | some selected =>
    let n := doomed.length
    let names := ", ".intercalate (doomed.map fun p => "\"" ++ p.name.display ++ "\"")
    return .done (toString n ++ " " ++ noun n ++ " Deleted")
      ("Deleted " ++ Text.lower (noun n) ++ ": " ++ names ++ ". \"" ++ selected.name.display ++
        "\" is now selected.")
      (some revised) page.id

/-! ## Showing -/

/-- Shows the document of a page. -/
def display (ctx : Context) : Except Fault Outcome := do
  let (project, _) ← ctx.require
  let args ← ctx.parse displayGrammar
  let page ← target project [args.nonempty? "id"]
  let document := Document.ofPage page
  return { Outcome.info "📄" ("Page \"" ++ page.name.display ++ "\"")
      (← Markup.jsonBlock document) document with
    entityId := page.id }

end Montage.Pages
