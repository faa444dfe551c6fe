/-
# The same line again

A line that changes an item, and is given once more on the project that it has left, succeeds and
changes no field (`Session.answer_again`).  It gives that very project, too, if it moves the item
to a position or not at all, or if its move beside a sibling `Settles`.

    set-audio, set-element, set-page    ask for the same update of the same item (`Asks.persists`)
    set-note                            stamps no note that it does not change
-/
import Montage.Proofs.Again
import Montage.Proofs.Lines

namespace Montage

section Answer
variable {α : Type} [Entity α] {label : String} {u : Update α} {total : Nat}

/-- The answer to an update that changed no field: the item may have another place. -/
theorem Outcome.ofUpdate_of_diff (hdiff : u.diff = [])
    (hsame : u.changed = false → u.revised = none) :
    (ofUpdate label u total).success = true ∧ (ofUpdate label u total).changes = [] ∧
      (ofUpdate label u total).revised = u.revised := by
  unfold ofUpdate
  cases hchanged : u.changed with
  | true => simp [done, hdiff]
  | false => exact ⟨rfl, rfl, (hsame hchanged).symm⟩

end Answer

/-- What a line gives for other fields than the excluded ones, the item has a field for. -/
theorem Grammar.named_of_parse {α : Type} [Entity α] {g : Grammar} {tokens excluded : List String}
    {fps : Number} {args : Arguments} (hfields : ∀ name ∈ g.fields, name ∉ excluded →
      (Entity.field? (α := α) name).isSome = true) (h : g.parse tokens fps = .ok args) :
    ∀ d ∈ args.except excluded, (Entity.field? (α := α) d.1).isSome = true := fun d hd =>
  hfields d.1 (mem_fields_of_parse h d (Arguments.mem_of_mem_except hd)) fun hmem =>
    Arguments.ne_of_mem_except hd hmem rfl

section Lines
variable {ids : IdSource} {collaborators : Collaborators} {j : Journal} {line : String}
  {tokens : List String} {p : Project} {args : Arguments} {s : Setter} {r : Request}

/-! ## Items that can be moved -/

namespace Setter

/-- The line changes the item with a named id, which stays, and does not move it by a number of
places from where it is. -/
structure Repeatable (s : Setter) (p : Project) (args : Arguments) (line : String) : Prop where
  called : ∃ tokens, Calls line s.command tokens ∧ s.grammar.parse tokens (.int p.fps) = .ok args
  named : ([args.nonempty? "id", args.nonempty? "target"].findSome? id).isSome = true
  stays : args.get? "new_id" = none
  placed : s = .element ∨ ∀ m, args.move? = .ok (some m) → m.number? = none

theorem Asks.settled (h : Asks p args s r) {fps : Number}
    (hargs : s.grammar.parse tokens fps = .ok args) : r.changes.Settled := by
  cases h with
  | track _ _ _ h => exact h ▸ .of_parse Tracks.changeGrammar_offers (by decide) hargs _
  | element _ _ _ _ h => exact h ▸ .of_parse Elements.changeGrammar_offers (by decide) hargs _
  | page _ _ _ _ h => exact h ▸ .of_parse Pages.changeGrammar_offers (by decide) hargs _

theorem Asks.named (h : Asks p args s r) {fps : Number}
    (hargs : s.grammar.parse tokens fps = .ok args) :
    ∀ d ∈ r.changes, (Entity.field? (α := r.collection.Item) d.1).isSome = true := by
  cases h with
  | track _ _ _ h => exact h ▸ Grammar.named_of_parse (α := Audio) (by decide) hargs
  | element _ _ _ _ h => exact h ▸ Grammar.named_of_parse (α := Element) (by decide) hargs
  | page _ _ _ _ h => exact h ▸ Grammar.named_of_parse (α := Page) (by decide) hargs

theorem Asks.placed (h : Asks p args s r)
    (hplaced : s = .element ∨ ∀ m, args.move? = .ok (some m) → m.number? = none) :
    ∀ m, r.move = some m → m.number? = none ∨ r.mode = .absolute := by
  rintro m hm
  cases h with
  | track _ _ hmove | page _ _ hmove =>
      exact .inl (hplaced.resolve_left nofun m (hmove.trans (congrArg _ hm)))
  | element => exact .inr rfl

/-- A line that asks for something is answered with what the update did. -/
theorem answer_eq (hcalls : Calls line s.command tokens)
    (hargs : s.grammar.parse tokens (.int p.fps) = .ok args) (hnew : args.get? "new_id" = none)
    (hasks : Asks p args s r) {u : Update r.collection.Item} (hu : r.run p = .ok u) :
    ∃ label total, Session.answer ids collaborators (some p) line j =
      if r.changes.isEmpty && r.move.isNone then .ofFault s.command.name nothingToUpdate
      else .ofUpdate label u total := by
  obtain ⟨c, hc⟩ := hasks.composition
  have hreads : (Session.context ids collaborators (some p) tokens).Reads s.grammar p c args :=
    ⟨rfl, hc, hargs⟩
  have hrequires : s.command.requiresConfirmation = false := by cases s <;> rfl
  have hhandler : s.command.handler = .ofExcept s.change := by cases s <;> rfl
  obtain ⟨label, total, hchange⟩ := change_eq hreads hasks hu
  rw [hnew, Option.isNone_none, Bool.and_true] at hchange
  refine ⟨label, total, ?_⟩
  rw [Session.answer_of_calls hcalls hrequires hhandler, hchange]
  cases r.changes.isEmpty && r.move.isNone <;> rfl

/-- A line that has changed an item finds the same item again, and changes no field of it. -/
theorem after_again (hids : p.DistinctIds) (h : s.Repeatable p args line)
    (hsuccess : (Session.answer ids collaborators (some p) line j).success = true) :
    ∃ r xs i, Asks p args s r ∧ r.collection.items p = .ok xs ∧
      Collection.place? xs r.id = some i ∧
      ∀ (ids' : IdSource) (collaborators' : Collaborators) (k : Journal),
        let once := Session.after ids collaborators j line p
        let second := Session.answer ids' collaborators' (some once) line k
        second.success = true ∧ second.changes = [] ∧
          (second.revised = none ↔
            ∀ m, r.move = some m → m.Settles (xs.map Entity.id) i r.mode) ∧
          ∀ q, second.revised = some q → q ≠ once := by
  obtain ⟨⟨tokens, hcalls, hargs⟩, hnamed, hnew, hplaced⟩ := h
  obtain ⟨r, u, hasks, hu⟩ := exists_asks hcalls hargs hnew hsuccess
  obtain ⟨before, x, after, hxs, -⟩ := Collection.update_cases hu
  obtain ⟨i, w, hplace, hw, hdiff, hrevised, hother⟩ :=
    Collection.update_again (hids.items hxs) hxs (hasks.settled hargs) (hasks.named hargs)
      hasks.ne_id (hasks.placed hplaced) hu
  have hdiffer : ∀ ys, r.collection.items p = .ok ys → Collection.IdsDiffer ys :=
    fun ys hys => Collection.idsDiffer_of_distinct (hids.items hys)
  obtain ⟨hagain, hfps⟩ :=
    hasks.persists hids.textIds hdiffer (fun _ => .inl hnamed) hasks.ne_id hu
  refine ⟨r, _, i, hasks, hxs, hplace, fun ids' collaborators' k => ?_⟩
  rw [after_eq hcalls hargs hasks hu]
  -- the first answer shows that the line asks for something
  have hasked : (r.changes.isEmpty && r.move.isNone) = false := by
    obtain ⟨_, _, hfirst⟩ : ∃ _ _, Session.answer ids collaborators (some p) line j = _ :=
      answer_eq hcalls hargs hnew hasks hu
    rw [← Bool.not_eq_true]
    intro hnothing
    rw [hfirst, if_pos hnothing] at hsuccess
    cases hsuccess
  have hrun : r.run (u.project p) = .ok w := by
    rw [Request.run, hfps]
    exact hw
  obtain ⟨label, total, hsecond⟩ :
      ∃ _ _, Session.answer ids' collaborators' (some (u.project p)) line k = _ :=
    answer_eq hcalls (hfps ▸ hargs) hnew hagain hrun
  rw [hasked, if_neg Bool.false_ne_true] at hsecond
  obtain ⟨hok, hchanges, hproject⟩ :=
    Outcome.ofUpdate_of_diff hdiff (Collection.revised_of_unchanged hw)
  dsimp only
  rw [hsecond, hproject]
  exact ⟨hok, hchanges, hrevised, hother⟩

end Setter

/-! ## Notes -/

namespace Notes

theorem change_eq_ok {ctx : Context} {o : Outcome} :
    change ctx = .ok o ↔ ∃ p c args id u v, ctx.Reads changeGrammar p c args ∧
      args.nonempty? "id" = some id ∧ (args.except ["id"]).isEmpty = false ∧
      Collection.notes.update p (.text id) (args.except ["id"]) (.int p.fps) ["time"] none
        .relative = .ok u ∧
      stamp ctx.ids.now u = .ok v ∧ o = .ofUpdate (α := Note) "Note" v p.notes.length := by
  unfold change
  simp only [bind_eq_ok, pure_eq_ok, error_bind, guard_eq_ok, Prod.exists, Context.require_eq_ok,
    Arguments.requireId_eq_ok, Bool.not_eq_true, eq_comm (a := o)]
  constructor
  · rintro ⟨p, c, ⟨hp, hc⟩, args, hargs, id, hid, hsome, u, hu, v, hv, ho⟩
    exact ⟨p, c, args, id, u, v, ⟨hp, hc, hargs⟩, hid, hsome, hu, hv, ho⟩
  · rintro ⟨p, c, args, id, u, v, hreads, hid, hsome, hu, hv, ho⟩
    exact ⟨p, c, ⟨hreads.project, hreads.composition⟩, args, hreads.args, id, hid, hsome, u, hu, v,
      hv, ho⟩

/-- A line that has changed a note changes it no more. -/
theorem after_again (hcalls : Calls line Builtin.notes[1] tokens)
    (hsuccess : (Session.answer ids collaborators (some p) line j).success = true)
    (ids' : IdSource) (collaborators' : Collaborators) (k : Journal) :
    let second := Session.answer ids' collaborators'
      (some (Session.after ids collaborators j line p)) line k
    second.success = true ∧ second.changes = [] ∧ second.revised = none := by
  have hanswer : Session.answer ids collaborators (some p) line j = _ :=
    Session.answer_of_calls hcalls rfl rfl
  cases hchange : change (Session.context ids collaborators (some p) tokens) with
  | error f =>
      rw [hchange] at hanswer
      rw [hanswer, (Outcome.ofFault_refuses _ f).success] at hsuccess
      cases hsuccess
  | ok o =>
      rw [hchange] at hanswer
      obtain ⟨_, c, args, id, u, v, ⟨hp, hc, hargs⟩, hid, hsome, hu, hv, rfl⟩ :=
        change_eq_ok.mp hchange
      cases hp
      obtain ⟨notes, w, hq, hw, hnone, hdiff⟩ :=
        update_again (.of_parse changeGrammar_offers (by decide) hargs _)
          (Grammar.named_of_parse (by decide) hargs)
          (fun d hd => Arguments.ne_of_mem_except hd (by decide))
          (fun d hd hname => absurd (hname ▸ Grammar.mem_fields_of_parse hargs d
            (Arguments.mem_of_mem_except hd)) (by decide : "updated_at" ∉ changeGrammar.fields))
          hu hv
      have hafter : Session.after ids collaborators j line p = { p with notes } := by
        rw [Session.after, hanswer, ← hq]
        exact congrArg (·.getD p) (Outcome.answers_ofUpdate (α := Note)).revised
      have hstamp : stamp ids'.now w = .ok w := by rw [stamp, hnone]
      have hagain : change (Session.context ids' collaborators' (some { p with notes }) tokens) =
          .ok (.ofUpdate (α := Note) "Note" w notes.length) :=
        change_eq_ok.mpr ⟨_, c, args, id, w, w, ⟨rfl, hc, hargs⟩, hid, hsome, hw, hstamp, rfl⟩
      have hsecond : Session.answer ids' collaborators' (some { p with notes }) line k = _ :=
        Session.answer_of_calls hcalls rfl rfl
      rw [hagain] at hsecond
      obtain ⟨hok, hchanges, hproject⟩ := Outcome.ofUpdate_of_diff hdiff fun _ => hnone
      dsimp only
      rw [hafter, hsecond, hproject]
      exact ⟨hok, hchanges, hnone⟩

end Notes

end Lines

/-! ## Both -/

/-- For every project whose ids tell its items apart, and every line that succeeded there: if it
names an item by its id and gives it no other one, the same line succeeds on the project that it
has left, and reports no changes, whatever collaborators and ids there are.  This is so for a note,
and for the other items unless they are moved by a number of places.  After a change of a note the
line gives no other project.  After the others it gives none exactly if it moves the item to a
position or not at all, or if the move `Settles` from the place where the item stood; otherwise it
gives another one. -/
theorem Session.answer_again {p : Project} (hids : p.DistinctIds) (ids ids' : IdSource)
    (collaborators collaborators' : Collaborators) (j k : Journal) (line : String)
    (hsuccess : (answer ids collaborators (some p) line j).success = true) :
    let once := after ids collaborators j line p
    let second := answer ids' collaborators' (some once) line k
    (∀ (s : Setter) (args : Arguments), s.Repeatable p args line →
      second.success = true ∧ second.changes = [] ∧
        (∃ r xs i, Setter.Asks p args s r ∧ r.collection.items p = .ok xs ∧
          Collection.place? xs r.id = some i ∧
          (second.revised = none ↔
            ∀ m, r.move = some m → m.Settles (xs.map Entity.id) i r.mode)) ∧
        ∀ q, second.revised = some q → q ≠ once) ∧
    ∀ tokens, Calls line Builtin.notes[1] tokens →
      second.success = true ∧ second.changes = [] ∧ second.revised = none := by
  constructor
  case left =>
    intro s args h
    obtain ⟨r, xs, i, hasks, hxs, hplace, hsecond⟩ := Setter.after_again hids h hsuccess
    obtain ⟨hok, hchanges, hrevised, hother⟩ := hsecond ids' collaborators' k
    exact ⟨hok, hchanges, ⟨r, xs, i, hasks, hxs, hplace, hrevised⟩, hother⟩
  case right =>
    intro tokens hcalls
    exact Notes.after_again hcalls hsuccess ids' collaborators' k

theorem twoPages_distinctIds : twoPages.DistinctIds where
  pages := twoPages_distinct
  audios := .nil
  notes := .nil
  elements := .nil

/-- Behind the other one of two pages a page stays where it is, and a note keeps the text that it
was given. -/
theorem Session.given_again :
    let line := "/set-page --id a --name New --after b"
    let noteLine := "/set-note --id note --text Hi"
    let first (p : Project) (line : String) := answer .counting {} (some p) line {}
    let second (p : Project) (line : String) :=
      answer .counting {} (some (after .counting {} {} line p)) line {}
    (first twoPages line).success = true ∧
      (second twoPages line).changes = [] ∧ (second twoPages line).revised = none ∧
    (first (.small "note") noteLine).success = true ∧
      (second (.small "note") noteLine).changes = [] ∧
      (second (.small "note") noteLine).revised = none := by
  intro line noteLine first second
  have hpage : (first twoPages line).success = true := by decide +kernel
  have hnote : (first (.small "note") noteLine).success = true := by decide +kernel
  have hsmall : (Project.small "note").DistinctIds :=
    ⟨⟨by decide, List.nodup_singleton _⟩, .nil, ⟨by decide, List.nodup_singleton _⟩,
      ⟨by decide, List.nodup_singleton _⟩⟩
  let args : Arguments := [("id", .text "a"), ("name", .text "New"), ("after", .text "b")]
  have hrepeatable : Setter.page.Repeatable twoPages args line := {
    called := ⟨["--id", "a", "--name", "New", "--after", "b"],
      ⟨"set-page", by decide +kernel, rfl⟩, rfl⟩
    named := rfl
    stays := rfl
    placed := .inr fun m hm => by
      cases hm
      rfl }
  have hcalls : Calls noteLine Builtin.notes[1] ["--id", "note", "--text", "Hi"] :=
    ⟨"set-note", by decide +kernel, rfl⟩
  obtain ⟨-, hchanges, ⟨r, xs, i, hasks, hxs, -, hrevised⟩, -⟩ :=
    (answer_again twoPages_distinctIds .counting .counting {} {} {} {} line hpage).1 .page args
      hrepeatable
  obtain ⟨-, hnoteChanges, hnoteRevised⟩ :=
    (answer_again hsmall .counting .counting {} {} {} {} noteLine hnote).2 _ hcalls
  refine ⟨hpage, hchanges, hrevised.mpr ?_, hnote, hnoteChanges, hnoteRevised⟩
  -- the move is behind the last page
  cases hasks with
  | page _ _ hmove =>
      cases hmove
      cases hxs
      rintro m ⟨⟩
      have hnames : Move.Names ⟨.after, "b"⟩ (["a", "b"].map .text) 1 :=
        Move.names_of_nodup (by decide) rfl
      exact .afterLast rfl rfl hnames rfl

/-- Before the other one of two pages, the first page goes behind it, and back again with the same
line. -/
theorem Session.moved_back_again :
    let line := "/set-page --id a --before b"
    let once := after .counting {} {} line twoPages
    let second := answer .counting {} (some once) line {}
    twoPages.DistinctIds ∧ (answer .counting {} (some twoPages) line {}).success = true ∧
      once.pages.map (·.name.display) = ["b", "a"] ∧ second.success = true ∧
      second.revised.isSome = true ∧
      (after .counting {} {} line once).pages.map (·.name.display) = ["a", "b"] := by
  refine ⟨twoPages_distinctIds, ?_⟩
  decide +kernel

end Montage
