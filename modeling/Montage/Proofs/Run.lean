/-
# What a command line does

A line that does not reach the end of a built-in command answers with a failure
and leaves the project alone, whatever it was that stopped it; any other line
calls a built-in command that was allowed to run, and has its effect
(`answer_cases`).  So a law of all command lines is proved for the effects, and
nothing about failures is left to prove.
-/
import Mathlib.Data.List.Nodup
import Montage.Command.Run
import Montage.Proofs.Effect

namespace Montage

/-! ## The commands of a catalog -/

namespace Catalog

variable {command : Command} {name : String}

theorem lookup_go {key : String} (entries : List (String × Command)) :
    (insert.go key command entries).lookup name =
      if name == key then some command else entries.lookup name := by
  induction entries with
  | nil => cases hk : name == key <;> simp [insert.go, List.lookup_cons, hk]
  | cons e r ih =>
      obtain ⟨k, c⟩ := e
      unfold insert.go
      by_cases hk : k = key
      · subst hk
        cases hn : name == k <;> simp [List.lookup_cons, hn]
      · have hne : (k == key) = false := by simpa using hk
        rw [hne]
        simp only [Bool.false_eq_true, if_false, List.lookup_cons, ih]
        cases hn : name == k with
        | false => rfl
        | true =>
            have hnk : name = k := by simpa using hn
            subst hnk
            simp [hne]

theorem get?_insert (c : Catalog) :
    (c.insert command).get? name =
      if Text.lower name == Text.lower command.name then some command else c.get? name :=
  lookup_go c.entries

/-- What a catalog of commands finds under a name is the command with this name. -/
theorem get?_ofList {commands : List Command} (h : (ofList commands).get? name = some command) :
    command ∈ commands ∧ Text.lower name = Text.lower command.name := by
  suffices hgen : ∀ c : Catalog, (commands.foldl insert c).get? name = some command →
      (command ∈ commands ∧ Text.lower name = Text.lower command.name) ∨
        c.get? name = some command by
    rcases hgen {} h with hmem | hnone
    · exact hmem
    · cases hnone
  clear h
  induction commands with
  | nil => exact fun c h => .inr h
  | cons d ds ih =>
      intro c h
      rcases ih (c.insert d) h with ⟨hmem, hname⟩ | hd
      · exact .inl ⟨List.mem_cons_of_mem _ hmem, hname⟩
      · rw [get?_insert] at hd
        split at hd
        · rename_i heq
          cases hd
          exact .inl ⟨List.mem_cons_self, by simpa using heq⟩
        · exact .inr hd

end Catalog

/-! ## Lines -/

/-- The line calls a built-in command with the given tokens. -/
def Calls (line : String) (command : Command) (args : List String) : Prop :=
  ∃ name, Line.call? line = some ⟨name, args⟩ ∧ Builtin.catalog.get? name = some command

theorem Calls.mem {line : String} {command : Command} {args : List String}
    (h : Calls line command args) : command ∈ Builtin.commands := by
  obtain ⟨_, -, hget⟩ := h
  exact (Catalog.get?_ofList hget).1

theorem Calls.unique {line : String} {c d : Command} {args args' : List String}
    (h : Calls line c args) (h' : Calls line d args') : c = d ∧ args = args' := by
  obtain ⟨_, hcall, hget⟩ := h
  obtain ⟨_, hcall', hget'⟩ := h'
  cases hcall.symm.trans hcall'
  cases hget.symm.trans hget'
  exact ⟨rfl, rfl⟩

/-- A name belongs to one command. -/
theorem Builtin.names_nodup : (Builtin.commands.map fun c => c.name).Nodup := by decide

theorem Builtin.eq_of_name {c d : Command} (hc : c ∈ commands) (hd : d ∈ commands)
    (h : c.name = d.name) : c = d :=
  List.inj_on_of_nodup_map names_nodup hc hd h

/-- A line calls the built-in command of the name that it starts with. -/
theorem exists_calls {line name : String} {args : List String}
    (hcall : Line.call? line = some ⟨name, args⟩)
    (hfound : (Builtin.catalog.get? name).any (fun c => c.name == name) = true) :
    ∃ command, Calls line command args ∧ command.name = name := by
  simp only [Option.any_eq_true, beq_iff_eq] at hfound
  obtain ⟨command, hget, hname⟩ := hfound
  exact ⟨command, ⟨name, hcall, hget⟩, hname⟩

/-! ## Answers -/

/-- The command may run: it asks for no confirmation, there is nobody to ask, a token consents, or
the user approves. -/
def CommandInfo.Allowed (c : CommandInfo) (ctx : Context) : Prop :=
  c.requiresConfirmation = true → ∀ confirm, ctx.collaborators.confirm = some confirm →
    ctx.args.any consentTokens.contains = true ∨ confirm c.question = .approves

/-- A failure, after which the project is the one before. -/
structure Outcome.Refuses (o : Outcome) : Prop where
  success : o.success = false
  revised : o.revised = none

theorem Outcome.ofFault_refuses (name : String) (f : Fault) : (Outcome.ofFault name f).Refuses := by
  cases f <;> exact ⟨rfl, rfl⟩

section Act
variable {ctx : Context} {o : Outcome} {j j' : Journal}

theorem Act.ask_approves {confirm : String → Reply} {message : String}
    (h : Yields (Act.ask confirm message) j true j') : confirm message = .approves := by
  obtain ⟨_, _, -, h⟩ := yields_bind.mp h
  cases hreply : confirm message with
  | approves => rfl
  | declines =>
      rw [hreply] at h
      cases (yields_pure.mp h).1
  | fails =>
      rw [hreply] at h
      exact absurd h not_yields_throw

theorem CommandInfo.allowed_of_isConfirmed {c : CommandInfo}
    (h : Yields (c.isConfirmed ctx) j true j') : c.Allowed ctx := by
  intro hreq confirm hconfirm
  unfold isConfirmed at h
  rw [hreq, hconfirm] at h
  by_cases hconsent : ctx.args.any consentTokens.contains = true
  · exact .inl hconsent
  · simp only [hconsent, if_false, Bool.false_eq_true] at h
    exact .inr (Act.ask_approves h)

/-- A command that may run is confirmed, if perhaps only by the user. -/
theorem CommandInfo.isConfirmed_of_allowed {c : CommandInfo} (h : c.Allowed ctx) :
    ∃ j', Yields (c.isConfirmed ctx) j true j' := by
  unfold isConfirmed
  cases hreq : c.requiresConfirmation with
  | false => exact ⟨j, rfl⟩
  | true =>
      cases hconfirm : ctx.collaborators.confirm with
      | none => exact ⟨j, rfl⟩
      | some confirm =>
          by_cases hconsent : ctx.args.any consentTokens.contains = true
          · simp only [hconsent, if_true]
            exact ⟨j, rfl⟩
          · have happroves := (h hreq confirm hconfirm).resolve_left hconsent
            simp only [hconsent, if_false, Bool.false_eq_true, Act.ask, happroves]
            exact ⟨_, rfl⟩

/-- A command that comes to an end was cancelled, or was allowed to run and did. -/
theorem Command.attempt_cases {command : Command} (h : Yields (command.attempt ctx) j o j') :
    o.Refuses ∨ (command.Allowed ctx ∧ ∃ t, Yields (command.handler ctx) t o j') := by
  obtain ⟨confirmed, t, hconfirmed, h⟩ := yields_bind.mp h
  cases confirmed with
  | true => exact .inr ⟨CommandInfo.allowed_of_isConfirmed hconfirmed, t, h⟩
  | false =>
      obtain ⟨rfl, -⟩ := yields_pure.mp h
      exact .inl ⟨rfl, rfl⟩

theorem Command.run_cases {command : Command} (h : (command.run ctx).run j = (o, j')) :
    o.Refuses ∨ (command.Allowed ctx ∧ ∃ t, Yields (command.handler ctx) t o j') := by
  unfold Command.run at h
  rw [StateT.run_bind] at h
  rcases hx : (command.attempt ctx).run.run j with ⟨_ | o', t⟩
  · rw [hx] at h
    cases h
    exact .inl (Outcome.ofFault_refuses _ _)
  · rw [hx] at h
    cases h
    exact Command.attempt_cases hx

end Act

namespace Session

/-- What a built-in command sees. -/
def context (ids : IdSource) (collaborators : Collaborators) (project : Option Project)
    (args : List String) : Context :=
  { project, args, collaborators, ids, catalog := Builtin.catalog.infos }

/-- The answer of the built-in commands to a line. -/
def answer (ids : IdSource) (collaborators : Collaborators) (project : Option Project)
    (line : String) (j : Journal) : Outcome :=
  ((execute { ids } collaborators project line).run j).1

variable (ids : IdSource) (collaborators : Collaborators) (project : Option Project)
  (line : String) (j : Journal)

/-- A line is refused, or calls a built-in command that runs to its end. -/
theorem answer_ran :
    (answer ids collaborators project line j).Refuses ∨
      ∃ command args, Calls line command args ∧
        command.Allowed (context ids collaborators project args) ∧
        ∃ t j', Yields (command.handler (context ids collaborators project args)) t
          (answer ids collaborators project line j) j' := by
  unfold answer execute
  cases hcall : Line.call? line with
  | none => exact .inl ⟨rfl, rfl⟩
  | some call =>
      dsimp only
      cases hget : Builtin.catalog.get? call.name with
      | none => exact .inl ⟨rfl, rfl⟩
      | some command =>
          have hcalls : Calls line command call.args := ⟨call.name, hcall, hget⟩
          have hrun : (command.run (context ids collaborators project call.args)).run j = _ := rfl
          rcases Command.run_cases hrun with hrefuses | ⟨hallowed, t, hyields⟩
          · exact .inl hrefuses
          · exact .inr ⟨command, call.args, hcalls, hallowed, t, _, hyields⟩

/-- A line is refused, or has the effect of a built-in command that it calls. -/
theorem answer_cases :
    (answer ids collaborators project line j).Refuses ∨
      ∃ command args, Calls line command args ∧
        command.Allowed (context ids collaborators project args) ∧
        Effect (context ids collaborators project args) command.name
          (answer ids collaborators project line j) := by
  rcases answer_ran ids collaborators project line j with
    hrefuses | ⟨command, args, hcalls, hallowed, t, j', hyields⟩
  · exact .inl hrefuses
  · exact .inr ⟨command, args, hcalls, hallowed, effect_of_yields hcalls.mem hyields⟩

variable {ids collaborators project line j}

/-- A line that succeeds has the effect of the command that it calls. -/
theorem effect_of_success {command : Command} {tokens : List String}
    (hcalls : Calls line command tokens)
    (hsuccess : (answer ids collaborators project line j).success = true) :
    Effect (context ids collaborators project tokens) command.name
      (answer ids collaborators project line j) := by
  rcases answer_cases ids collaborators project line j with
    hrefuses | ⟨command', tokens', hcalls', -, heffect⟩
  · cases hrefuses.success.symm.trans hsuccess
  · obtain ⟨rfl, rfl⟩ := hcalls.unique hcalls'
    exact heffect

/-- A command without effects that may run answers what it computes. -/
theorem answer_of_allowed {command : Command} {tokens : List String}
    {compute : Context → Except Fault Outcome} (h : Calls line command tokens)
    (hallowed : command.Allowed (context ids collaborators project tokens))
    (hhandler : command.handler = .ofExcept compute) :
    answer ids collaborators project line j =
      match compute (context ids collaborators project tokens) with
      | .ok o => o
      | .error f => .ofFault command.name f := by
  obtain ⟨name, hcall, hget⟩ := h
  let ctx := context ids collaborators project tokens
  have hrun : answer ids collaborators project line j = ((command.run ctx).run j).1 := by
    unfold answer execute
    rw [hcall]
    dsimp only
    rw [hget]
    rfl
  obtain ⟨j', hconfirmed⟩ := CommandInfo.isConfirmed_of_allowed (j := j) hallowed
  have hattempt : (command.attempt ctx).run.run j = (compute ctx, j') := by
    unfold Command.attempt
    rw [ExceptT.run_bind, StateT.run_bind, hconfirmed, hhandler]
    show (Handler.ofExcept compute ctx).run.run j' = _
    unfold Handler.ofExcept
    cases compute ctx <;> rfl
  rw [hrun, Command.run, StateT.run_bind, hattempt]
  show _ = match compute ctx with
    | .ok o => o
    | .error f => .ofFault command.name f
  cases compute ctx <;> rfl

end Session

/-! ## A small project -/

/-- A source whose thousand suffixes count the draws. -/
def IdSource.counting : IdSource := { millis := 0, suffix := Nat.repr, draws := 1000, now := "" }

/-- A page with a text on it, both selected, and a note with the given id. -/
def Project.small (noteId : String) : Project where
  id := "project"
  name := .text "Small"
  composition := some {
    pages := [{
      id := .text "page", name := .text "Page", duration := .int 150
      elements := [{ Elements.defaultText with id := .text "text" }] }] }
  notes := [{ id := .text noteId, time := .int 0, text := .text "Note" }]
  appState := { selectedPageId := .text "page", selectedElementId := .text "text" }

end Montage
