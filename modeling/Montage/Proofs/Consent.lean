/-
# Consent

A command that asks for confirmation reads the same tokens twice.  Whether to ask
is decided by the bare tokens: `--yes` or `-y` anywhere among them consents.  What
they mean is decided by their place: behind `--id` such a token is an id.  The two
readings part only there: if the user does not approve, the project stays as it
is unless `yes` is set or a token that consents is the value of an option
(`answer_without_consent`), and one that is a value does consent.
-/
import Montage.Proofs.Options
import Montage.Proofs.Run

namespace Montage

namespace Builtin

/-- What the commands that ask for confirmation accept. -/
def askingGrammars : List Grammar :=
  [Tracks.deleteGrammar, Elements.deleteGrammar, Notes.deleteGrammar, Pages.deleteGrammar]

theorem exists_askingGrammar {command : Command} (hmem : command ∈ commands)
    (hasks : command.requiresConfirmation = true) :
    ∃ g ∈ askingGrammars, g.command = command.name := by
  have hinfos : ∀ c ∈ commands.map (·.toCommandInfo), c.requiresConfirmation = true →
      ∃ g ∈ askingGrammars, g.command = c.name := by decide
  exact hinfos _ (List.mem_map_of_mem hmem) hasks

theorem hasSwitch_yes {g : Grammar} (hg : g ∈ askingGrammars) :
    g.HasSwitch "yes" consentTokens := by
  simp only [askingGrammars, List.mem_cons, List.not_mem_nil, or_false] at hg
  rcases hg with rfl | rfl | rfl | rfl <;> constructor <;> decide

/-- No command looks at how the user is asked. -/
theorem handler_withoutConfirm {command : Command} (hmem : command ∈ commands) (ctx : Context) :
    command.handler { ctx with collaborators := { ctx.collaborators with confirm := none } } =
      command.handler ctx := by
  simp only [commands, tracks, elements, notes, pages, settings, List.cons_append,
    List.nil_append, List.mem_cons, List.not_mem_nil, or_false] at hmem
  rcases hmem with rfl | rfl | rfl | rfl | rfl | rfl | rfl | rfl | rfl | rfl | rfl | rfl | rfl |
    rfl | rfl | rfl | rfl | rfl | rfl | rfl | rfl <;> rfl

end Builtin

/-- A command that asks for confirmation reads its tokens before it does anything. -/
theorem Effect.parse_of_asking {ctx : Context} {name : String} {o : Outcome} {g : Grammar}
    (h : Effect ctx name o) (hg : g ∈ Builtin.askingGrammars) (hname : g.command = name) :
    ∃ args, ctx.parse g = .ok args := by
  have hnames : ∀ g ∈ Builtin.askingGrammars,
      g.command ∉ ["new-text", "new-image", "new-video"] := by decide
  simp only [Builtin.askingGrammars, List.mem_cons, List.not_mem_nil, or_false] at hg
  cases h with
  | createElement hr =>
      exact absurd (Elements.command_mem hr) (hname ▸ hnames g (by
        simpa [Builtin.askingGrammars] using hg))
  | deleteTrack hreads | deleteElement hreads | deleteNote hreads | deletePages hreads =>
      rcases hg with rfl | rfl | rfl | rfl <;>
        first
        | exact ⟨_, hreads.args⟩
        | exact absurd hname (by decide)
  | _ => rcases hg with rfl | rfl | rfl | rfl <;> exact absurd hname (by decide)

/-! ## A token that consents -/

section Consent
variable {ctx : Context} {command : Command}

theorem CommandInfo.isConfirmed_of_consent {c : CommandInfo}
    (h : ctx.args.any consentTokens.contains = true) : c.isConfirmed ctx = pure true := by
  unfold isConfirmed
  cases c.requiresConfirmation with
  | false => rfl
  | true =>
      cases ctx.collaborators.confirm with
      | none => rfl
      | some confirm => simp only [h, if_true]

/-- With consent a command runs as it does when there is nobody to ask. -/
theorem Command.run_of_consent (hmem : command ∈ Builtin.commands)
    (h : ctx.args.any consentTokens.contains = true) :
    command.run ctx =
      command.run { ctx with collaborators := { ctx.collaborators with confirm := none } } := by
  unfold Command.run Command.attempt
  rw [Builtin.handler_withoutConfirm hmem ctx, CommandInfo.isConfirmed_of_consent h,
    CommandInfo.isConfirmed_of_consent (by exact h)]

end Consent

namespace Session

variable (ids : IdSource) (project : Option Project) {collaborators : Collaborators}
  {line : String} {command : Command} {args : List String}

/-- A command whose question is not approved leaves the project alone, unless `yes` is set or an
option takes a consenting token as its value.  With such a value the user is not asked, and the
command runs as it does when there is nobody to ask. -/
theorem answer_without_consent (hcalls : Calls line command args)
    (hasks : command.requiresConfirmation = true) {confirm : String → Reply}
    (hconfirm : collaborators.confirm = some confirm)
    (hdeclines : confirm command.question ≠ .approves) :
    ∃ g ∈ Builtin.askingGrammars, g.command = command.name ∧
      ((∀ parsed, (context ids collaborators project args).parse g = .ok parsed →
          parsed.isSet "yes" = false) →
        (∀ t ∈ g.values args, t ∉ consentTokens) →
        ∀ j, (answer ids collaborators project line j).revised = none) ∧
      ((∃ t ∈ g.values args, t ∈ consentTokens) →
        execute { ids } collaborators project line =
          execute { ids } { collaborators with confirm := none } project line) := by
  obtain ⟨g, hg, hname⟩ := Builtin.exists_askingGrammar hcalls.mem hasks
  refine ⟨g, hg, hname, ?unset, ?value⟩
  case unset =>
    intro hunset hvalues j
    rcases answer_cases ids collaborators project line j with
      hrefuses | ⟨command', args', hcalls', hallowed, heffect⟩
    · exact hrefuses.revised
    obtain ⟨rfl, rfl⟩ := hcalls.unique hcalls'
    exfalso
    obtain ⟨parsed, hparsed⟩ := heffect.parse_of_asking hg hname
    have hconsent := (hallowed hasks confirm hconfirm).resolve_right hdeclines
    obtain ⟨t, ht, hmem⟩ := List.any_eq_true.mp hconsent
    have hmem : t ∈ consentTokens := List.contains_iff_mem.mp hmem
    rcases Grammar.parse_switch (Builtin.hasSwitch_yes hg) hparsed ht hmem with hvalue | hset
    · exact hvalues t hvalue hmem
    · rw [hunset parsed hparsed] at hset
      cases hset
  case value =>
    rintro ⟨t, ht, hmem⟩
    obtain ⟨name, hcall, hget⟩ := id hcalls
    have hconsent : args.any consentTokens.contains = true :=
      List.any_eq_true.mpr ⟨t, Grammar.mem_of_mem_values ht, List.contains_iff_mem.mpr hmem⟩
    unfold execute
    simp only [hcall, hget]
    exact Command.run_of_consent hcalls.mem hconsent

/-! ## Two deletions -/

/-- Nobody approves. -/
def declining : Collaborators := { confirm := some fun _ => .declines }

theorem builtin_del_note : ∃ command, Builtin.catalog.get? "del-note" = some command ∧
    command.name = "del-note" ∧ command.requiresConfirmation = true := by
  have hfound : (Builtin.catalog.get? "del-note").any
      (fun c => c.name == "del-note" && c.requiresConfirmation) = true := by decide +kernel
  simpa only [Option.any_eq_true, Bool.and_eq_true, beq_iff_eq] using hfound

/-- The user declines to delete a note, and it stays. -/
theorem declined_note_stays :
    (answer .counting declining (some (.small "note")) "/del-note --id note" {}).revised.isNone =
      true := by
  obtain ⟨command, hget, hname, hasks⟩ := builtin_del_note
  have hcalls : Calls "/del-note --id note" command ["--id", "note"] :=
    ⟨"del-note", by decide +kernel, hget⟩
  have hconfirm : declining.confirm = some fun _ => .declines := rfl
  obtain ⟨g, hg, hgname, hunset, -⟩ := answer_without_consent .counting (some (.small "note"))
    hcalls hasks hconfirm (by decide)
  obtain rfl : g = Notes.deleteGrammar := by
    rw [hname] at hgname
    simp only [Builtin.askingGrammars, List.mem_cons, List.not_mem_nil, or_false] at hg
    rcases hg with rfl | rfl | rfl | rfl
    · exact absurd hgname (by decide)
    · exact absurd hgname (by decide)
    · rfl
    · exact absurd hgname (by decide)
  rw [hunset ?parsed ?values {}]
  · rfl
  case parsed =>
    intro parsed hparsed
    cases hparsed
    rfl
  case values => decide

/-- An id that looks like consent consents: the note `-y` is deleted, although `yes` is not set and
the user declines. -/
theorem note_with_consenting_id_is_deleted :
    ∃ command, Calls "/del-note --id -y" command ["--id", "-y"] ∧
      command.requiresConfirmation = true ∧ Notes.deleteGrammar.command = command.name ∧
      (context .counting declining (some (.small "-y")) ["--id", "-y"]).parse
        Notes.deleteGrammar = .ok [("id", .text "-y")] ∧
      Arguments.isSet [("id", .text "-y")] "yes" = false ∧
      (answer .counting declining (some (.small "-y")) "/del-note --id -y" {}).revised.map
        (·.notes.length) = some 0 := by
  obtain ⟨command, hget, hname, hasks⟩ := builtin_del_note
  refine ⟨command, ⟨"del-note", by decide +kernel, hget⟩, hasks, hname.symm, rfl, rfl, ?_⟩
  decide +kernel

end Session

end Montage
