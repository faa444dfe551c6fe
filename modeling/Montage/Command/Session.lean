/-
What a command works with.

A command sees the project, its arguments, the collaborators of the session and
the source of ids.  It changes none of them: it answers with an outcome.  The
journal records what it did to the world outside: how many ids it drew, what it
asked the user, and what it showed in the viewer.  The journal is kept when a
command fails.
-/
import Montage.Command.Outcome
import Montage.Options.Arguments
import Montage.Fresh

namespace Montage

/-! ## Collaborators -/

/-- How the user answers when asked for confirmation. -/
inductive Reply where
  | approves
  | declines
  | fails
deriving DecidableEq, Repr

/-- How the viewer takes a request. -/
inductive Viewer where
  | opens
  | fails
deriving DecidableEq, Repr

/-- How the file storage answers when asked for all its files. -/
inductive FileStorage where
  /-- The records, now or later. -/
  | lists (records : List Value) (later : Bool)
  | fails

/-- The collaborators that a session may have. -/
structure Collaborators where
  confirm : Option (String → Reply) := none
  viewer : Option Viewer := none
  files : Option FileStorage := none

/-- What is known of a command besides what it does. -/
structure CommandInfo where
  name : String
  description : String
  usage : String
  requiresConfirmation : Bool := false
  /-- The question before the command is run, empty for a general one. -/
  confirmationMessage : Option String := none
deriving DecidableEq, Repr

/-- Everything that a command sees. -/
structure Context where
  project : Option Project
  args : List String
  collaborators : Collaborators := {}
  ids : IdSource
  /-- The known commands by their names in the catalog, in order. -/
  catalog : List (String × CommandInfo) := []

namespace Context

/-- The frame rate of the project. -/
def fps (ctx : Context) : Int :=
  match ctx.project with
  | some p => p.fps
  | none => Limits.defaultFps

/-- The project and its composition. -/
def require (ctx : Context) : Except Fault (Project × Composition) := do
  let p ← requireProject ctx.project
  return (p, ← p.requireComposition)

/-- The arguments as a grammar reads them. -/
def parse (ctx : Context) (g : Grammar) : Except Fault Arguments :=
  g.parse ctx.args (.int ctx.fps)

end Context

/-! ## Effects -/

/-- What commands did to the world outside. -/
structure Journal where
  /-- The number of ids drawn. -/
  drawn : Nat := 0
  /-- The questions asked, in order. -/
  asked : List String := []
  /-- The requests to the viewer, in order. -/
  shown : List Bool := []
deriving DecidableEq, Repr

/-- A computation that may fail and keeps the journal. -/
abbrev Act := ExceptT Fault (StateM Journal)

namespace Act

/-- A computation that draws ids. -/
def draw {α : Type} (d : Drawing α) : Act α := do
  let j ← get
  let (x, n) := d.run j.drawn
  set { j with drawn := n }
  x

/-- Asks the user. -/
def ask (confirm : String → Reply) (message : String) : Act Bool := do
  modify fun j => { j with asked := j.asked ++ [message] }
  match confirm message with
  | .approves => return true
  | .declines => return false
  | .fails => throw .collaborator

/-- Opens the viewer. -/
def openViewer (v : Viewer) : Act Unit := do
  modify fun j => { j with shown := j.shown ++ [true] }
  match v with
  | .opens => return ()
  | .fails => throw .collaborator

end Act

/-- What a command does. -/
abbrev Handler := Context → Act Outcome

/-- A command without effects. -/
def Handler.ofExcept (answer : Context → Except Fault Outcome) : Handler :=
  fun ctx => liftM (answer ctx)

/-- A command. -/
structure Command extends CommandInfo where
  handler : Handler

end Montage
