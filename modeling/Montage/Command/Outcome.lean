/-
Outcomes: what a command answers.

An outcome says whether the command succeeded, what to show in the chat, and,
for a machine, which entity was concerned, what changed and what was listed.
`revised` is the project after the command; absent means that the project is the
very one that the command was given.
-/
import Montage.Command.Markup
import Montage.Project.Basic

namespace Montage

/-- The answer to a command line. -/
structure Outcome where
  success : Bool
  message : String
  /-- Whether the line was a command at all. -/
  handled : Bool := true
  revised : Option Project := none
  /-- The id of the entity that was concerned; `null` if none was. -/
  entityId : Value := .null
  /-- What changed. -/
  changes : List Value := []
  problem : Option ProblemKind := none
  /-- What was listed; `null` if nothing was. -/
  data : Value := .null

namespace Outcome

/-- A command that did something. -/
def done (title body : String) (revised : Option Project) (entityId : Value := .null)
    (changes : List String := []) : Outcome :=
  { success := true
    message := Markup.titled "✅" title body
    revised
    entityId
    changes := changes.map .text }

/-- A command that tells something. -/
def info (icon title body : String) (data : Value := .null) : Outcome :=
  { success := true, message := Markup.titled icon title body, data }

/-- A command that could not be carried out. -/
def failure (title detail : String) (handled : Bool := true) : Outcome :=
  { success := false, message := Markup.titled "❌" title detail, handled }

/-- A command that ran into a problem. -/
def ofProblem (p : Problem) : Outcome :=
  { success := false, message := p.message, problem := some p.kind }

/-- The outcome without the project, as a value. -/
def toValue (o : Outcome) : Value :=
  .object
    ([("success", .bool o.success), ("message", .text o.message), ("handled", .bool o.handled)] ++
      (if o.entityId.isNull then [] else [("id", o.entityId)]) ++
      (if o.changes.isEmpty then [] else [("changes", .list o.changes)]) ++
      (match o.problem with
        | some k => [("error", .text k.name)]
        | none => []) ++
      (if o.data.isNull then [] else [("data", o.data)]))

end Outcome

end Montage
