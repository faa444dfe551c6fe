/-
The tools that a host offers, as it describes them to its clients.
-/
import Montage.Project.Basic

namespace Montage

/-- A tool with the schema of its arguments. -/
structure Tool where
  name : String
  description : String
  schema : Value

namespace Tool

/-- The schema of an argument: its type, what it is, and what else is known of it. -/
def argument (type description : String) (more : List (String × Value) := []) : Value :=
  .object ([("type", .text type)] ++
    (if description.isEmpty then [] else [("description", .text description)]) ++ more)

/-- The schema of some arguments, of which some are required. -/
def arguments (properties : List (String × Value)) (required : List String) : Value :=
  .object ([("type", .text "object"), ("properties", .object properties)] ++
    (if required.isEmpty then [] else [("required", .list (required.map .text))]))

/-- Lists the project files. -/
def listProjects : Tool where
  name := "list_projects"
  description := "List all project JSON files in a directory"
  schema := arguments
    [("directory", argument "string" "Directory to search (default: ~/Movies)")] []

/-- Runs a command on a project file. -/
def runCommand : Tool where
  name := "run_command"
  description :=
    "Run one slash command (e.g. '/set-audio --id a1 --volume 0.5') against a project file. " ++
    "The file is saved only if the command changed the document. " ++
    "Use list_commands for syntax."
  schema := arguments
    [("project_path", argument "string" "Path to the project .json file"),
     ("command", argument "string" "Slash command line"),
     ("confirm", argument "boolean" "Approve destructive commands (same as passing --yes)"
       [("default", .bool false)])]
    ["project_path", "command"]

/-- Lists the commands. -/
def listCommands : Tool where
  name := "list_commands"
  description := "List available slash commands with usage, optionally filtered by a partial name"
  schema := arguments
    [("query", argument "string" "Partial command name, e.g. 'set' or 'sa'")] []

/-- An integer with a default and limits. -/
def integer (absent low high : Int) : Value :=
  argument "integer" ""
    [("default", .int absent), ("minimum", .int low), ("maximum", .int high)]

/-- Makes a project file. -/
def newProject : Tool where
  name := "new_project"
  description := "Create a new project file with one blank page"
  schema := arguments
    [("output_path", argument "string" "Where to write the project .json"),
     ("name", argument "string" "" [("default", .text "Untitled Project")]),
     ("fps", integer Limits.defaultFps Limits.fps.1 Limits.fps.2),
     ("width", integer Limits.defaultWidth 1 Limits.maxWidth),
     ("height", integer Limits.defaultHeight 1 Limits.maxHeight)]
    ["output_path"]

/-- All tools. -/
def all : List Tool := [listProjects, runCommand, listCommands, newProject]

/-- The tool as a value. -/
def toValue (t : Tool) : Value :=
  .object [
    ("name", .text t.name), ("description", .text t.description), ("inputSchema", t.schema)]

end Tool

end Montage
