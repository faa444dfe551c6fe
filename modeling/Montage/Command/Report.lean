/-
Reports on updates.
-/
import Montage.Command.Outcome
import Montage.Edit.Update
import Montage.Options.Arguments

namespace Montage

namespace Outcome

/-- The paragraphs that tell what an update did. -/
def updateParts {α : Type} (label id : String) (u : Update α) (total : Nat) : List String :=
  ["Updated " ++ Text.lower label ++ " '" ++ id ++ "'."] ++
  (if u.diff.isEmpty then [] else ["Changes:\n" ++ Markup.bulletList u.diff]) ++
  (if u.newIndex == u.oldIndex then []
   else ["Moved from position " ++ toString (u.oldIndex + 1) ++ " to " ++
      toString (u.newIndex + 1) ++ " of " ++ toString total ++ "."])

/-- What an update of one of `total` items did. -/
def ofUpdate {α : Type} [Entity α] (label : String) (u : Update α) (total : Nat) : Outcome :=
  let id := Entity.id u.item
  if u.changed then
    done (label ++ " Updated") ("\n\n".intercalate (updateParts label id.display u total))
      u.revised id u.diff
  else
    { info "ℹ️" (label ++ " Unchanged")
        (label ++ " '" ++ id.display ++
          "' already has the requested values. Nothing was changed.") with
      entityId := id }

end Outcome

/-- The refusal of an update that asks for nothing. -/
def nothingToUpdate : Fault :=
  .invalid "No Changes Specified"
    "Please specify at least one property to update or a new position."

/-- The id that a command needs, or the refusal with its usage. -/
def Arguments.requireId (a : Arguments) (title detail : String) : Except Fault String :=
  match a.nonempty? "id" with
  | some id => .ok id
  | none => .error (.invalid title detail)

/-- The move that the options ask for. -/
def Arguments.move? (a : Arguments) : Except Fault (Option Move) :=
  Move.ofOptions (a.text? "before") (a.text? "after")

end Montage
