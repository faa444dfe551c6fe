/-
Calling the tools of a host.

A host works on a file system: it lists project files, runs a command on one and
saves it if the command changed the project, lists the commands, and makes new
project files.  Whatever stops a tool becomes its answer.
-/
import Montage.Command.Run
import Montage.Files.Check
import Montage.Files.Storage
import Montage.Host.Tool
import Montage.Project.Summary

namespace Montage

/-- What stays the same from call to call. -/
structure Host where
  session : Session
  /-- The directory that relative paths start from. -/
  home : Path
  /-- The directory of the projects. -/
  projects : String
  /-- The directory of the media files. -/
  files : String
  /-- The time at which files were changed, in milliseconds. -/
  modified : Nat

/-- What calls change: the files, and the number of ids drawn. -/
structure World where
  files : FileSystem := {}
  drawn : Nat := 0
deriving DecidableEq, Repr

/-- A computation that may fail and keeps what it did to the world. -/
abbrev Task := ExceptT Fault (StateM World)

namespace Host

/-- The entry of arguments that must be there. -/
def require (args : List (String × Value)) (key : String) : Except Fault Value :=
  match args.lookup key with
  | some v => .ok v
  | none => .error .missingKey

/-- The entry of arguments, or another value if it is absent. -/
def entryD (args : List (String × Value)) (key : String) (absent : Value) : Value :=
  (args.lookup key).getD absent

/-- Writes a project to a file. -/
def save (p : Path) (project : Project) : Task Unit := do
  let world ← get
  let files ← world.files.write p (← Document.fileText project)
  set { world with files }

/-! ## Listing projects -/

/-- The answer with the project files of a directory. -/
def projectList (directory : String) (files : List String) : String :=
  if files.isEmpty then "No project files found in " ++ directory
  else
    "Found " ++ toString files.length ++ " project file(s):\n" ++
      "\n".intercalate (files.map ("  - " ++ ·))

/-- Lists the project files of a directory. -/
def listProjects (h : Host) (fs : FileSystem) (args : List (String × Value)) :
    Except Fault (List String) := do
  let directory := entryD args "directory" (.text h.projects)
  let p ← Files.existingDirectory fs h.home directory
  return [projectList directory.display (Files.projectFiles fs p)]

/-! ## Running a command -/

/-- The collaborators of a command: the given consent, and the directory of media files. -/
def collaborators (h : Host) (fs : FileSystem) (approved : Bool) : Collaborators where
  confirm := some fun _ => if approved then .approves else .declines
  files :=
    match Files.records fs h.modified h.home h.files with
    | .ok records => some (.lists records true)
    | .error _ => some .fails

/-- The line of a command. -/
def commandLine (args : List (String × Value)) : Except Fault String := do
  match ← require args "command" with
  | .text line => return line
  | _ => .error .noAttribute

/-- Runs a line on a project. -/
def execute (h : Host) (approved : Bool) (project : Project) (line : String) : Task Outcome := do
  let world ← get
  let collaborators := h.collaborators world.files approved
  let (o, journal) := (h.session.execute collaborators (some project) line).run
    { drawn := world.drawn }
  set { world with drawn := journal.drawn }
  return o

/-- The answer to a line that is no command. -/
def notCommand : String := "Not a slash command. Commands start with '/', e.g. /help"

/-- Saves the project that a successful command changed, and says where. -/
def saveRevised (p : Path) (o : Outcome) : Task String := do
  match o.success, o.revised with
  | true, some project => do
    save p project
    return "\n\nSaved to: " ++ p.text
  | _, _ => return ""

/-- Runs a command on a project file. -/
def runCommand (h : Host) (args : List (String × Value)) : Task (List String) := do
  let world ← get
  let (p, file) ← Files.existing world.files h.home Files.projectSuffixes
    (← require args "project_path")
  let project ← Files.load file
  let approved := (entryD args "confirm" (.bool false)).isTruthy
  let o ← h.execute approved project (← commandLine args)
  if !o.handled then return [notCommand]
  let saved ← saveRevised p o
  return [o.message ++ saved, ← Json.write o.toValue]

/-! ## Listing commands -/

/-- The commands that match a query. -/
def matchingCommands (catalog : Catalog) (query : String) : String :=
  let found := catalog.complete query
  if found.isEmpty then "No commands match '" ++ query ++ "'"
  else
    "# Commands matching '" ++ query ++ "'\n\n" ++
      Catalog.helpText (found.map fun c => (c.name, c.toCommandInfo))

/-- Lists the commands, all of them without a query. -/
def listCommands (h : Host) (args : List (String × Value)) : Except Fault (List String) :=
  let query := entryD args "query" .null
  if !query.isTruthy then .ok ["# Commands\n\n" ++ Catalog.helpText h.session.catalog.infos]
  else
    match query with
    | .text q => .ok [matchingCommands h.session.catalog q]
    | _ => .error .noAttribute

/-! ## Making a project -/

/-- What a new project is made from. -/
structure Settings where
  name : Value
  fps : Int
  width : Int
  height : Int

/-- Refuses a frame rate or a canvas outside the limits. -/
def Settings.check (s : Settings) : Except Fault Unit := do
  let (low, high) := Limits.fps
  if s.fps < low ∨ high < s.fps then
    .error (.badValue ("fps must be between " ++ toString low ++ " and " ++ toString high ++
      ", got " ++ toString s.fps))
  if s.width < 1 ∨ Limits.maxWidth < s.width ∨ s.height < 1 ∨ Limits.maxHeight < s.height then
    .error (.badValue ("Resolution must be within " ++ toString Limits.maxWidth ++ "x" ++
      toString Limits.maxHeight ++ ", got " ++ toString s.width ++ "x" ++ toString s.height))

/-- The settings that the arguments give. -/
def settings (args : List (String × Value)) : Except Fault Settings := do
  let fps ← Document.wholeNumber (entryD args "fps" (.int Limits.defaultFps))
  let width ← Document.wholeNumber (entryD args "width" (.int Limits.defaultWidth))
  let height ← Document.wholeNumber (entryD args "height" (.int Limits.defaultHeight))
  let given := entryD args "name" .null
  let name := if given.isTruthy then given else .text "Untitled Project"
  return { name, fps, width, height }

/-- Draws ids. -/
def draw {α : Type} (d : Drawing α) : Task α := do
  let world ← get
  let (x, drawn) := d.run world.drawn
  set { world with drawn }
  x

/-- Makes a project file. -/
def newProject (h : Host) (args : List (String × Value)) : Task (List String) := do
  let p ← Files.output (← get).files h.home (← require args "output_path")
  let s ← settings args
  s.check
  let project ← draw (Montage.newProject h.session.ids s.name s.fps s.width s.height)
  save p project
  return ["Created project '" ++ project.name.display ++ "'\n\n" ++ (← project.summary) ++
    "\n\nSaved to: " ++ p.text]

/-! ## Calls -/

/-- What stopped a tool, as its answer. -/
def failureText (f : Fault) : String :=
  match f, f.badValue? with
  | .fileNotFound m, _ => "File not found: " ++ m
  | _, some m => "Validation error: " ++ m
  | f, none => "Error: " ++ f.className

/-- What a tool does. -/
def perform (h : Host) (name : String) (args : List (String × Value)) : Task (List String) := do
  if name == Tool.listProjects.name then h.listProjects (← get).files args
  else if name == Tool.runCommand.name then h.runCommand args
  else if name == Tool.listCommands.name then h.listCommands args
  else if name == Tool.newProject.name then h.newProject args
  else return ["Unknown tool: " ++ name]

/-- Calls a tool; what stops it becomes the answer. -/
def call (h : Host) (name : String) (args : List (String × Value)) :
    StateM World (List String) := do
  match ← (h.perform name args).run with
  | .ok texts => return texts
  | .error f => return [failureText f]

end Host

end Montage
