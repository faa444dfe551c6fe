/-
Commands on elements: adding a text, an image or a video, changing an element,
deleting one.

A new element starts from the defaults of its kind or from a copy of another
element.  The size of a stored file with the element's source comes next, and
the options come last.
-/
import Montage.Command.Session
import Montage.Command.Report
import Montage.Options.Recurring

namespace Montage.Elements

/-! ## Options -/

/-- The options for place, size and looks. -/
def geometryOptions : List CommandOption := [
  .taking "left" "--left" "-l" Converter.number "100",
  .taking "top" "--top" "-tp" Converter.number "100",
  .taking "width" "--width" "-w" Converter.positiveNumber "400",
  .taking "height" "--height" "-h" Converter.positiveNumber "300",
  .taking "opacity" "--opacity" "-o" Converter.opacity "0.8",
  .taking "rotation" "--rotation" "-r" Converter.number "45"]

/-- The options for a text and its style. -/
def textOptions : List CommandOption := [
  .taking "text" "--text" "-t" Converter.text "\"Hello World\"",
  .taking "font_size" "--font-size" "-fs" Converter.positiveWhole "24",
  .taking "color" "--color" "-c" Converter.color "\"#ff0000\"",
  .taking "font_family" "--font-family" "-ff" Converter.text "\"Arial, sans-serif\"",
  .taking "font_weight" "--font-weight" "-fw" Converter.text "bold",
  .taking "text_align" "--text-align" "-ta" Converter.textAlign "center"]

/-- The options for the time on the page. -/
def timingOptions : List CommandOption := [.delay "1s", .length "3s"]

/-- The element to copy. -/
def copyOption : CommandOption :=
  .taking "copy" "--copy" "" Converter.text "image-1700000000000-abc123xyz"

/-- The fields that commands set on an element, in the order of new elements. -/
def createFields : List String :=
  ["text", "src", "left", "top", "width", "height", "opacity", "rotation", "font_size", "color",
   "font_family", "font_weight", "text_align", "delay", "duration", "copy"]

/-- What the command for a new text accepts. -/
def textGrammar : Grammar where
  command := "new-text"
  options := textOptions ++ geometryOptions ++ timingOptions ++ [copyOption]
  fields := createFields

/-- What the command for a new medium accepts. -/
def mediaGrammar (command : String) : Grammar where
  command := command
  options := [.src] ++ geometryOptions ++ timingOptions ++ [copyOption]
  fields := createFields

/-- What `/set-element` accepts. -/
def changeGrammar : Grammar where
  command := "set-element"
  options :=
    [.taking "id" "--id" "-i" Converter.text "text-1700000000000-abc123xyz",
     .taking "before" "--before" "-b" Converter.position "1",
     .taking "after" "--after" "-a" Converter.position "2"] ++
    geometryOptions ++ [.taking "z_index" "--z-index" "-z" Converter.whole "10"] ++
    textOptions ++ [.src] ++ timingOptions
  positional := "target"
  fields :=
    ["target", "id", "before", "after", "left", "top", "width", "height", "z_index", "opacity",
     "rotation", "text", "src", "font_size", "color", "font_family", "font_weight", "text_align",
     "delay", "duration"]

/-- What `/del-elem` accepts. -/
def deleteGrammar : Grammar where
  command := "del-elem"
  options := [.taking "id" "--id" "-i" Converter.text, .yes]
  fields := ["id", "yes"]

/-- The fields that count frames. -/
def frameFields : List String := ["delay", "duration"]

/-- The fields that only a text has. -/
def textOnlyFields : List String :=
  ["text", "font_size", "color", "font_family", "font_weight", "text_align"]

/-! ## What a new element starts from -/

/-- An element of a size in the middle of the canvas. -/
def centered (c : Composition) (width height : Value) (e : Element) : Except Fault Element := do
  let middle (canvas : Int) (size : Value) : Except Fault Value := do
    let room ← (Number.int canvas).sub (← size.toNumber)
    return .ofNumber (← room.floorDiv (.int 2))
  return { e with
    left := ← middle c.width width
    top := ← middle c.height height
    width, height }

/-- A new text. -/
def defaultText : Element :=
  { id := .text ""
    kind := .text
    text := .text "New Text"
    left := .int 100
    top := .int 100
    width := .int 200
    height := .int 50
    fontSize := .int 32
    color := .text "#000000"
    fontFamily := .text "Arial, sans-serif"
    fontWeight := .text "normal"
    textAlign := some .left }

/-- The size of an image or a video without one. -/
def defaultSize (kind : ElementKind) : Int × Int :=
  if kind = .video then (320, 240) else (400, 300)

/-- A new image or video. -/
def defaultMedium (c : Composition) (kind : ElementKind) : Except Fault Element :=
  let (width, height) := defaultSize kind
  centered c (.int width) (.int height)
    { id := .text ""
      kind
      opacity := .float (Binary64.ofInt 1)
      rotation := .int 0
      delay := if kind = .video then .int 0 else .null }

/-- A new element. -/
def default (c : Composition) (kind : ElementKind) : Except Fault Element :=
  if kind = .text then .ok defaultText else defaultMedium c kind

/-- The element to copy, which must be of the kind of the new one. -/
def copySource (c : Composition) (kind : ElementKind) (id : String) : Except Fault Element :=
  match c.findElement? (.text id) with
  | none =>
    .error (.notFound "Source Element Not Found"
      ("Cannot find element with ID '" ++ id ++ "' to copy from."))
  | some (_, source) =>
    if source.kind = kind then .ok source
    else
      .error (.invalid "Invalid Copy Source"
        ("Element '" ++ source.id.display ++ "' is a " ++ source.kind.name ++ " element, not " ++
          kind.name ++ "."))

/-- What a new element starts from. -/
def start (c : Composition) (kind : ElementKind) (args : Arguments) : Except Fault Element :=
  match args.nonempty? "copy" with
  | some id => copySource c kind id
  | none => default c kind

/-! ## Stored files -/

/-- The size in a record, if it gives both dimensions. -/
def recordedSize? (record : List (String × Value)) : Option (Value × Value) :=
  let width := Value.entry record "width"
  let height := Value.entry record "height"
  if width.isTruthy && height.isTruthy then some (width, height) else none

/-- The size in the first record whose data address or name is `src`. -/
def sizeIn (src : Value) : List Value → Except Fault (Option (Value × Value))
  | [] => .ok none
  | .object record :: rest =>
    if (Value.entry record "dataUrl").same src || (Value.entry record "name").same src
    then .ok (recordedSize? record)
    else sizeIn src rest
  | _ :: _ => .error .noAttribute

/-- The size of the stored file that is the source of an element, if it is known.  A storage
that fails knows none. -/
def storedSize (files : Option FileStorage) (src : Value) :
    Except Fault (Option (Value × Value)) :=
  match files with
  | some (.lists records _) => if src.isTruthy then sizeIn src records else .ok none
  | some .fails | none => .ok none

/-- The element with the size of its stored file. -/
def fitted (c : Composition) (files : Option FileStorage) (args : Arguments) (e : Element) :
    Except Fault Element := do
  let given := (args.nonempty? "src").map Value.text
  match ← storedSize files (given.getD e.src) with
  | some (width, height) => centered c width height e
  | none => return e

/-! ## Adding -/

/-- The frames of an element on its page. -/
def lengthText (fps : Int) (duration : Value) : Except Fault String :=
  if duration.isNull then .ok "whole page" else Duration.textAt fps duration

/-- The lines about what an element shows. -/
def contentLines (e : Element) : List String :=
  if e.kind = .text then
    ["Text: \"" ++ e.text.display ++ "\"",
     "Font: " ++ e.fontSize.display ++ "px " ++ e.fontFamily.display ++ " (" ++
       e.fontWeight.display ++ ")",
     "Color: " ++ e.color.display]
  else if e.src.isTruthy then ["Source: " ++ e.src.display]
  else []

/-- A line about a value, none if there is nothing to tell. -/
def lineIf (told : Bool) (line : Except Fault String) : Except Fault (List String) :=
  if told then line.map ([·]) else .ok []

/-- The lines that describe an element. -/
def describe (e : Element) (fps : Int) : Except Fault String := do
  let geometry := [
    "Position: (" ++ (← e.left.brief) ++ ", " ++ (← e.top.brief) ++ ")",
    "Size: " ++ (← e.width.brief) ++ "×" ++ (← e.height.brief)]
  let opacity ← lineIf (!e.opacity.isNull) (.ok ("Opacity: " ++ e.opacity.display))
  let rotation ← lineIf e.rotation.isTruthy do
    return "Rotation: " ++ (← e.rotation.brief) ++ "°"
  let delay ← lineIf e.delay.isTruthy do return "Delay: " ++ (← Duration.textAt fps e.delay)
  return Markup.bulletList
    (["ID: " ++ e.id.display, "Type: " ++ e.kind.name] ++ contentLines e ++ geometry ++ opacity ++
      rotation ++ delay ++ ["Duration: " ++ (← lengthText fps e.duration)])

/-- A kind of element that a command adds. -/
structure Recipe where
  kind : ElementKind
  grammar : Grammar
  /-- The title of the answer. -/
  title : String

/-- Adds texts. -/
def text : Recipe := ⟨.text, textGrammar, "Text Element Added"⟩

/-- Adds images. -/
def image : Recipe := ⟨.image, mediaGrammar "new-image", "Image Element Added"⟩

/-- Adds videos. -/
def video : Recipe := ⟨.video, mediaGrammar "new-video", "Video Element Added"⟩

/-- The page for a new element. -/
def requirePage (project : Project) : Except Fault Page :=
  match project.selectedPage? with
  | some page => .ok page
  | none =>
    .error (.notFound "No Pages" "The composition has no pages. Use `/new-page` to add one.")

/-- The new element but for its id. -/
def draft (r : Recipe) (c : Composition) (files : Option FileStorage) (args : Arguments) :
    Except Fault Element := do
  let e ← start c r.kind args
  let e ← if r.kind = .text then pure e else fitted c files args e
  let e ← Changes.assign e (args.except ["copy"])
  if r.kind ≠ .text && !e.src.isTruthy then
    .error (.invalid "Missing Source"
      ("A source URL is required.\n\nUsage: `/" ++ r.grammar.command ++ " --src url`"))
  return e

/-- The answer to an element added to a page. -/
def added (r : Recipe) (project : Project) (page : Page) (e : Element) : Except Fault Outcome := do
  let revised ← (Collection.elements page.id).append project e
  let body := "Added " ++ r.kind.name ++ " element to page \"" ++ page.name.display ++ "\"\n\n" ++
    (← describe e project.fps)
  return .done r.title body (some revised) e.id

/-- Adds an element to the selected page. -/
def create (r : Recipe) : Handler := fun ctx => do
  let (project, composition) ← ctx.require
  let args ← ctx.parse r.grammar
  let page ← requirePage project
  let e ← draft r composition ctx.collaborators.files args
  let id ← Act.draw (drawId ctx.ids r.kind.name composition.elementIds)
  added r project page { e with id := .text id }

/-! ## Changing and deleting -/

/-- The element that a command is about: the first id given, or else the selected one. -/
def target (project : Project) (candidates : List (Option String)) : Except Fault Value :=
  match candidates.findSome? id with
  | some id => .ok (.text id)
  | none =>
    if project.appState.selectedElementId.isTruthy then .ok project.appState.selectedElementId
    else
      .error (.invalid "No Element Selected"
        ("No element ID provided and no element is currently selected.\n\n" ++
          "Select an element in the editor or pass `--id element_id`."))

/-- The id of the page of an element, and the element. -/
def locate (project : Project) (id : Value) : Except Fault (Value × Element) := do
  let page ← Collection.owning project id
  let (_, e) ← (Collection.elements page).require project id
  return (page, e)

/-- The refusal of options that do not apply to an element. -/
def wrongOption (detail : String) : Fault := .invalid "Invalid Option for Element Type" detail

/-- An option behind its field's name. -/
def flagOf (field : String) : String :=
  "`--" ++ field.map (fun c => if c == '_' then '-' else c) ++ "`"

/-- Refuses a source for a text, and a text or its style for another element. -/
def checkOptions (e : Element) (changes : Changes) : Except Fault Unit :=
  let given (name : String) : Bool := changes.any fun c => c.1 == name
  if e.kind = .text then
    if given "src" then .error (wrongOption "Option `--src` does not apply to text elements.")
    else .ok ()
  else
    let rejected := textOnlyFields.filter given
    if rejected.isEmpty then .ok ()
    else
      .error (wrongOption
        (", ".intercalate (rejected.map flagOf) ++ " only apply to text elements; '" ++
          e.id.display ++ "' is a " ++ e.kind.name ++ " element."))

/-- Changes fields of an element and moves it on its page. -/
def change (ctx : Context) : Except Fault Outcome := do
  let (project, _) ← ctx.require
  let args ← ctx.parse changeGrammar
  let aim ← target project [args.nonempty? "id", args.nonempty? "target"]
  let move ← args.move?
  let changes := args.except ["target", "id", "before", "after"]
  if changes.isEmpty && move.isNone then .error nothingToUpdate
  let (page, e) ← locate project aim
  checkOptions e changes
  let c := Collection.elements page
  let u ← c.update project aim changes (.int project.fps) frameFields move .absolute
  return .ofUpdate "Element" u (← c.items project).length

/-- The lines about a deleted element. -/
def deletedLines (e : Element) (page : Page) (wasSelected : Bool) : List String :=
  ["Element ID: " ++ e.id.display, "Element type: " ++ e.kind.name] ++
  (if e.text.isTruthy then ["Text: \"" ++ e.text.display ++ "\""]
   else if e.src.isTruthy then ["Source: " ++ e.src.display]
   else []) ++
  ["Page: " ++ page.name.display] ++
  (if wasSelected then ["Selection cleared"] else [])

/-- The project with no element selected. -/
def withoutSelection (project : Project) : Project :=
  project.withState fun s => { s with selectedElementId := .null }

/-- Deletes an element, and the selection with it. -/
def delete (ctx : Context) : Except Fault Outcome := do
  let (project, _) ← ctx.require
  let args ← ctx.parse deleteGrammar
  let aim ← target project [args.nonempty? "id"]
  let (pageId, e) ← locate project aim
  let (_, page) ← Collection.pages.require project pageId
  let page : Page := page
  let revised ← (Collection.elements pageId).remove project [aim]
  let wasSelected := project.appState.selectedElementId.same aim
  let body := "Deleted " ++ (← e.displayName) ++ " from page \"" ++ page.name.display ++
    "\"\n\n" ++ Markup.bulletList (deletedLines e page wasSelected)
  return .done "Element Deleted" body
    (some (if wasSelected then withoutSelection revised else revised)) e.id

end Montage.Elements
