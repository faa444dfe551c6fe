/-
Running command lines.

A line that is no command is not handled.  A command that asks for confirmation
is run if it is confirmed, if a token of the line consents, or if there is nobody
to ask.  Whatever stops a command becomes its answer: a problem is told as it is,
any other fault as an internal one.
-/
import Montage.Command.Builtin
import Montage.Command.Line

namespace Montage

/-- The tokens that consent to a command. -/
def consentTokens : List String := ["--yes", "-y"]

namespace CommandInfo

/-- The question before a command is run. -/
def question (c : CommandInfo) : String :=
  let general := "Are you sure you want to run /" ++ c.name ++ "?"
  match c.confirmationMessage with
  | some m => if m.isEmpty then general else m
  | none => general

/-- Whether a command may be run. -/
def isConfirmed (c : CommandInfo) (ctx : Context) : Act Bool := do
  match c.requiresConfirmation, ctx.collaborators.confirm with
  | false, _ | _, none => return true
  | true, some confirm =>
    if ctx.args.any consentTokens.contains then return true
    else Act.ask confirm c.question

end CommandInfo

namespace Outcome

/-- A command that the user did not want. -/
def cancelled (name : String) : Outcome :=
  { success := false
    message := Markup.titled "⏸️" "Command Cancelled"
      ("`/" ++ name ++ "` was cancelled. Add `--yes` to skip confirmation.") }

/-- A line that is no command. -/
def notCommand : Outcome := { success := false, message := "", handled := false }

/-- A line that calls an unknown command. -/
def unknownCommand (name : String) (known : List String) : Outcome :=
  failure "Unknown Command"
    ("Unknown command '/" ++ name ++ "'.\n\nAvailable commands: " ++
      ", ".intercalate (known.map ("/" ++ ·)))

/-- What stopped a command, as its outcome. -/
def ofFault (name : String) : Fault → Outcome
  | .problem p => ofProblem p
  | _ => ofProblem (.internalFor name)

/-- The project after a command. -/
def projectAfter (o : Outcome) (before : Option Project) : Option Project :=
  match o.revised with
  | some p => some p
  | none => before

end Outcome

namespace Command

/-- Runs a command, if it is confirmed. -/
def attempt (c : Command) : Handler := fun ctx => do
  if ← c.isConfirmed ctx then c.handler ctx else return .cancelled c.name

/-- Runs a command; what stops it becomes the answer. -/
def run (c : Command) (ctx : Context) : StateM Journal Outcome := do
  match ← (c.attempt ctx).run with
  | .ok o => return o
  | .error f => return .ofFault c.name f

end Command

/-- What stays the same from line to line. -/
structure Session where
  catalog : Catalog := Builtin.catalog
  ids : IdSource

namespace Session

/-- Runs a command line on a project. -/
def execute (s : Session) (collaborators : Collaborators) (project : Option Project)
    (text : String) : StateM Journal Outcome := do
  match Line.call? text with
  | none => return .notCommand
  | some call =>
    match s.catalog.get? call.name with
    | none => return .unknownCommand call.name s.catalog.names
    | some command =>
      command.run
        { project, args := call.args, collaborators, ids := s.ids, catalog := s.catalog.infos }

end Session

end Montage
