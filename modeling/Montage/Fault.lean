/-
Why an operation stops.

A `Problem` is what a user is told: a kind, a title and a detail.  A `Fault`
is either such a problem or a failure of the evaluation itself: a text that is
no number, a value of the wrong kind, an arithmetic overflow.  Running a
command turns every fault into an answer; reading a document turns the first
two kinds of failure into problems and lets the others through.
-/
namespace Montage

/-- The kinds of problem that a user is told about. -/
inductive ProblemKind where
  | general
  | validation
  | notFound
  | conflict
  | internal
deriving DecidableEq, Repr

namespace ProblemKind

/-- The word for a kind in a command's answer. -/
def name : ProblemKind → String
  | general => "error"
  | validation => "validation"
  | notFound => "not_found"
  | conflict => "conflict"
  | internal => "internal"

/-- The title of a problem that brings none of its own. -/
def defaultTitle : ProblemKind → String
  | general => "Command Failed"
  | validation => "Invalid Argument"
  | notFound => "Not Found"
  | conflict => "Conflicting Options"
  | internal => "Command Failed"

end ProblemKind

/-- What a user is told when a command cannot be carried out. -/
structure Problem where
  kind : ProblemKind
  title : String
  detail : String
deriving DecidableEq, Repr

namespace Problem

/-- A problem with the given title, or with its kind's own if that is empty. -/
def titled (kind : ProblemKind) (title detail : String) : Problem :=
  ⟨kind, if title.isEmpty then kind.defaultTitle else title, detail⟩

/-- The problem as shown in the chat. -/
def message (p : Problem) : String :=
  "❌ **" ++ p.title ++ "**\n\n" ++ p.detail

/-- The generic problem shown for an unexpected failure of a command. -/
def internalFor (command : String) : Problem :=
  titled .internal "" ("Failed to run `/" ++ command ++ "`. Please try again.")

/-- An option stands at the end of the line without its value. -/
def missingValue (flag hint : String) : Problem :=
  let detail := "Option `" ++ flag ++ "` requires a value."
  titled .validation "Missing Value"
    (if hint.isEmpty then detail
     else detail ++ "\n\nExample: `" ++ flag ++ " " ++ hint ++ "`")

/-- A token looks like an option and is none of the command's. -/
def unknownOption (token command : String) : Problem :=
  titled .validation "Unknown Option"
    ("Unknown option '" ++ token ++ "'. Use `/help` to see the usage of `/" ++ command ++ "`.")

/-- No project, or one without a composition. -/
def noProject : Problem :=
  titled .notFound "No Project"
    "No project is currently loaded. Please create or load a project first."

/-- A document that cannot be read as a project. -/
def invalidDocument (detail : String) : Problem :=
  titled .validation "Invalid Document" detail

end Problem

/-- Why an operation stops. -/
inductive Fault where
  /-- A problem to tell the user. -/
  | problem (p : Problem)
  /-- A value of the right kind that cannot be used. -/
  | badValue (message : String)
  /-- A value of the wrong kind where a keyword was expected; its kind is named. -/
  | notText (kind : String)
  /-- A value of the wrong kind. -/
  | wrongType (message : String)
  /-- A value without the field or operation asked of it. -/
  | noAttribute
  /-- A number out of the range of floating point, or an infinity where an integer is needed. -/
  | overflow
  /-- A division by zero. -/
  | divisionByZero
  /-- A position outside a list. -/
  | indexOutOfRange
  /-- A required entry that is absent. -/
  | missingKey
  /-- A file that does not exist. -/
  | fileNotFound (message : String)
  /-- A directory where a file was to be written. -/
  | isDirectory
  /-- A file where a directory was expected. -/
  | notDirectory
  /-- A failure of the file system for another reason. -/
  | fileSystem
  /-- A collaborator failed. -/
  | collaborator
deriving DecidableEq, Repr

namespace Fault

/-- The text of a fault; empty where only its cause is known. -/
def message : Fault → String
  | problem p => p.detail
  | badValue m => m
  | notText kind => "Expected str, got " ++ kind
  | wrongType m => m
  | fileNotFound m => m
  | _ => ""

/-- A validation problem. -/
def invalid (title detail : String) : Fault :=
  problem (.titled .validation title detail)

/-- A problem with something that does not exist. -/
def notFound (title detail : String) : Fault :=
  problem (.titled .notFound title detail)

/-- A bad value or a wrong type; a validation problem is one of a bad value too. -/
def isBadInput : Fault → Bool
  | problem p => p.kind == .validation
  | badValue _ | notText _ | wrongType _ => true
  | _ => false

/-- The name of a fault's class. -/
def className : Fault → String
  | problem p =>
    match p.kind with
    | .general => "CommandError"
    | .validation => "ValidationError"
    | .notFound => "NotFoundError"
    | .conflict => "ConflictError"
    | .internal => "InternalError"
  | badValue _ => "ValueError"
  | notText _ | wrongType _ => "TypeError"
  | noAttribute => "AttributeError"
  | overflow => "OverflowError"
  | divisionByZero => "ZeroDivisionError"
  | indexOutOfRange => "IndexError"
  | missingKey => "KeyError"
  | fileNotFound _ => "FileNotFoundError"
  | isDirectory => "IsADirectoryError"
  | notDirectory => "NotADirectoryError"
  | fileSystem => "OSError"
  | collaborator => "RuntimeError"

/-- The text of a bad value; a validation problem is one too. -/
def badValue? : Fault → Option String
  | problem p => if p.kind = .validation then some p.detail else none
  | badValue m => some m
  | _ => none

end Fault

end Montage
