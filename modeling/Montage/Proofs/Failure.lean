/-
# Answers without a project

An answer brings a project only when a command came to its end: a failure at any
point of it, be it in the arguments, in a look-up, in a collaborator, or in the
text of an answer whose project was complete already, answers without one.  So
do the commands that only list, and so does every line when there is no project
or the project has no composition.
-/
import Montage.Proofs.Run

namespace Montage

/-- The names of the commands that only list. -/
def Builtin.listings : List String := ["ls-comp", "ls-page", "ls-notes", "ls-files", "help"]

namespace Effect

variable {ctx : Context} {name : String} {o : Outcome}

/-- A command that comes to an end succeeds. -/
theorem success (h : Effect ctx name o) : o.success = true := by
  cases h <;> exact Outcome.Answers.success ‹_›

theorem handled (h : Effect ctx name o) : o.handled = true := by
  cases h <;> exact Outcome.Answers.handled ‹_›

theorem revised_of_listing (h : Effect ctx name o) (hname : name ∈ Builtin.listings) :
    o.revised = none := by
  cases h with
  | listNotes _ _ ho => exact ho.revised
  | displayPage _ _ _ ho => exact ho.revised
  | displayComposition _ ho => exact ho.revised
  | listFiles _ ho => exact ho.revised
  | listCommands _ ho => exact ho.revised
  | createElement hr => exact absurd hname (Elements.command_not_mem hr (by decide))
  | _ => exact absurd hname (by decide)

/-- Only a project with a composition can be revised. -/
theorem composition_of_revised {q : Project} (h : Effect ctx name o) (hq : o.revised = some q) :
    ∃ p c, ctx.project = some p ∧ p.composition = some c := by
  cases h with
  | listNotes _ _ ho | listFiles _ ho | listCommands _ ho =>
      rw [ho.revised] at hq
      cases hq
  | createElement _ hreads => exact ⟨_, _, hreads.project, hreads.composition⟩
  | _ => exact ⟨_, _, Context.Reads.project ‹_›, Context.Reads.composition ‹_›⟩

end Effect

theorem Outcome.projectAfter_of_revised_eq_none {o : Outcome} {before : Option Project}
    (h : o.revised = none) : o.projectAfter before = before := by
  rw [projectAfter, h]

namespace Session

variable (ids : IdSource) (collaborators : Collaborators) (project : Option Project)
  (line : String) (j : Journal)

/-- The project after a line is the very one before it whenever the line fails, whenever it calls a
command that only lists, and whenever there is no composition. -/
theorem answer_keeps_project :
    ((answer ids collaborators project line j).success = false →
      (answer ids collaborators project line j).revised = none) ∧
    (∀ command args, Calls line command args → command.name ∈ Builtin.listings →
      (answer ids collaborators project line j).revised = none) ∧
    (project.bind (·.composition) = none →
      (answer ids collaborators project line j).revised = none) ∧
    ((answer ids collaborators project line j).revised = none →
      (answer ids collaborators project line j).projectAfter project = project) := by
  have hcases := answer_cases ids collaborators project line j
  refine ⟨?failure, ?listing, ?absent, Outcome.projectAfter_of_revised_eq_none⟩
  case failure =>
    intro hfail
    rcases hcases with hrefuses | ⟨command, args, -, -, heffect⟩
    · exact hrefuses.revised
    · rw [heffect.success] at hfail
      cases hfail
  case listing =>
    intro command args hcalls hlisting
    rcases hcases with hrefuses | ⟨command', args', hcalls', -, heffect⟩
    · exact hrefuses.revised
    · obtain ⟨rfl, rfl⟩ := hcalls.unique hcalls'
      exact heffect.revised_of_listing hlisting
  case absent =>
    intro hnone
    rcases hcases with hrefuses | ⟨command, args, -, -, heffect⟩
    · exact hrefuses.revised
    · cases hq : (answer ids collaborators project line j).revised with
      | none => rfl
      | some q =>
          obtain ⟨p, c, hp, hc⟩ := heffect.composition_of_revised hq
          obtain rfl : project = some p := hp
          rw [Option.bind_some, hc] at hnone
          cases hnone

end Session

end Montage
