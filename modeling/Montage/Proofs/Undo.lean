/-
# What was added can be deleted again

Each of five commands adds one item, and one of three others deletes it by the id that was
reported (`Undoes`):

    new-audio                          del-audio      the audio tracks
    new-note                           del-note       the notes
    new-text, new-image, new-video     del-elem       the elements of the selected page

The project after both is the very one before (`Session.answer_undone`).  Ids may be repeated
in it: the new id differs from all that are there, and the deletion goes by ids.  That is all
that is needed of the lists (`Collection.remove_appended`).  For an element the page has to be
found again, by the element; no other page holds one with its id.

A deletion can also fail on its answer, which names what was deleted.  For a track and a note
the duration and the time were written when they were added, and are written again.  For an
image or a video the source has to be a text; it comes from the line, or was copied.
-/
import Montage.Proofs.Aim
import Montage.Proofs.Complete
import Montage.Proofs.Lines
import Montage.Proofs.Storable

namespace Montage

/-! ## Commands that undo another one -/

/-- The command `undo` deletes what the command `name` adds. -/
inductive Undoes : (undo name : String) → Prop
  | track : Undoes "del-audio" "new-audio"
  | note : Undoes "del-note" "new-note"
  | element {r : Elements.Recipe} : r ∈ Elements.recipes → Undoes "del-elem" r.grammar.command

/-- The elements of every page are a list, and their sources are texts or absent. -/
structure Project.Typed (p : Project) : Prop where
  elements : ∀ page ∈ p.pages, page.noElements = .list []
  sources : ∀ page ∈ p.pages, ∀ e ∈ page.elements, e.src = .null ∨ e.src.IsText

variable {p q : Project}

/-! ## An item added and removed -/

theorem Project.TextIds.items (h : p.TextIds) {c : Collection} {xs : List c.Item}
    (hxs : c.items p = .ok xs) : ∀ id ∈ xs.map Entity.id, id.IsText := by
  cases c with
  | pages =>
      obtain ⟨c, hc, rfl⟩ := Collection.items_pages.mp hxs
      exact fun id hid => h.pages id (by rwa [pageIds, pages_eq hc])
  | audios =>
      obtain ⟨c, hc, rfl⟩ := Collection.items_audios.mp hxs
      exact fun id hid => h.audios id (by rwa [audioIds, hc])
  | notes =>
      obtain rfl := Collection.items_notes.mp hxs
      exact h.notes
  | elements =>
      obtain ⟨c, before, page, after, hc, hpages, -, rfl⟩ := Collection.items_elements.mp hxs
      refine fun id hid => h.elements id (List.mem_flatMap.mpr ⟨page, ?_, hid⟩)
      rw [pages_eq hc, hpages]
      exact List.mem_append_cons_self

namespace Collection

variable {c : Collection} {x : c.Item}

/-- Putting the items of a collection in their place changes nothing. -/
theorem replace_self (hp : p.Typed) {xs : List c.Item} (hxs : c.items p = .ok xs) :
    c.replace p xs = p := by
  cases c with
  | pages =>
      obtain ⟨c, hc, rfl⟩ := items_pages.mp hxs
      rw [replace_pages hc]
      exact Project.withComposition_self hc
  | audios =>
      obtain ⟨c, hc, rfl⟩ := items_audios.mp hxs
      rw [replace_audios hc]
      exact Project.withComposition_self hc
  | notes =>
      obtain rfl := items_notes.mp hxs
      rfl
  | elements =>
      obtain ⟨c, before, page, after, hc, hpages, hfirst, rfl⟩ := items_elements.mp hxs
      have hlist : page.noElements = .list [] :=
        hp.elements page (by rw [Project.pages_eq hc, hpages]; exact List.mem_append_cons_self)
      have hpage : page.withElements page.elements = page := by
        rw [Page.withElements, ← hlist]
      rw [replace_elements hc hpages hfirst, hpage, ← hpages]
      exact Project.withComposition_self hc

/-- An item that was added is found. -/
theorem require_appended (h : c.append p x = .ok q) (hid : (Entity.id x).IsText) :
    ∃ i, c.require q (Entity.id x) = .ok (i, x) := by
  obtain ⟨xs, hxs, hfree, rfl⟩ := append_eq_ok.mp h
  exact ⟨_, require_eq_ok.mpr ⟨xs, [], items_replace hxs _, rfl, (hasId_iff hid).mpr rfl, hfree⟩⟩

/-- The project without an item that was added is the one before. -/
theorem remove_appended (h : c.append p x = .ok q) (hid : (Entity.id x).IsText)
    (hids : p.TextIds) (hp : p.Typed) : c.remove q [Entity.id x] = .ok p := by
  obtain ⟨xs, hxs, hfree, rfl⟩ := append_eq_ok.mp h
  have htexts : ∀ id ∈ (xs ++ [x]).map Entity.id, id.IsText := by
    rw [List.map_append, List.forall_mem_append]
    exact ⟨hids.items hxs, by simpa using hid⟩
  have hleft : (xs ++ [x]).filter (fun y => !([Entity.id x].any (Entity.hasId y))) = xs := by
    have hgone : Entity.hasId x (Entity.id x) = true := (hasId_iff hid).mpr rfl
    rw [List.filter_append, List.filter_eq_self.mpr (by simpa using hfree)]
    simp [hgone]
  rw [remove_of_texts (items_replace hxs _) (by simpa using hid) htexts, hleft,
    replace_replace hxs, replace_self hp hxs]

end Collection

/-! ## Deleting it by its id -/

/-- The deletion of the id `x` from the project `q` leaves the project `p`. -/
def Restores (delete : Context → Except Fault Outcome) (p q : Project) (x : String) : Prop :=
  ∀ ctx : Context, ctx.project = some q → ctx.args = ["--id", x, "--yes"] →
    ∃ o, delete ctx = .ok o ∧ o.success = true ∧ o.revised = some p

/-- What a deletion reads from such a line. -/
def undoArguments (x : String) : Arguments := [("id", .text x), ("yes", .bool true)]

section Restore
variable {c : Composition} {x s : String}

/-- The line is read, and the item is found and removed, at the frame rate at which it was added. -/
theorem Context.undo_steps {ctx : Context} {g : Grammar} {k : Collection} {y : k.Item}
    (hg : ∀ fps, g.parse ["--id", x, "--yes"] fps = .ok (undoArguments x))
    (hids : p.TextIds) (hp : p.Typed) (hc : p.composition = some c) (hq : k.append p y = .ok q)
    (hid : Entity.id y = .text x) (hproject : ctx.project = some q)
    (hargs : ctx.args = ["--id", x, "--yes"]) :
    ∃ d i, ctx.require = .ok (q, d) ∧ ctx.parse g = .ok (undoArguments x) ∧
      k.require q (.text x) = .ok (i, y) ∧ k.remove q [.text x] = .ok p ∧ q.fps = p.fps := by
  have htext : (Entity.id y).IsText := ⟨x, hid⟩
  obtain ⟨i, hfound⟩ := Collection.require_appended hq htext
  have hremoved := Collection.remove_appended hq htext hids hp
  rw [hid] at hfound hremoved
  obtain ⟨xs, -, -, rfl⟩ := Collection.append_eq_ok.mp hq
  obtain ⟨d, hd⟩ := Collection.composition_replace hc k (xs ++ [y])
  refine ⟨d, i, Context.require_eq_ok.mpr ⟨hproject, hd⟩, ?_, hfound, hremoved,
    Collection.fps_replace k p _⟩
  rw [Context.parse, hargs, hg]

theorem nonempty?_undoArguments (hx : x ≠ "") : (undoArguments x).nonempty? "id" = some x :=
  Arguments.nonempty?_of_get? rfl hx

theorem requireId_undoArguments (hx : x ≠ "") (title detail : String) :
    (undoArguments x).requireId title detail = .ok x :=
  Arguments.requireId_eq_ok.mpr (nonempty?_undoArguments hx)

theorem Tracks.restores (hids : p.TextIds) (hp : p.Typed) (hc : p.composition = some c) {a : Audio}
    (hq : Collection.audios.append p a = .ok q) (hid : a.id = .text x) (hx : x ≠ "")
    (hs : Duration.textAt p.fps a.duration = .ok s) : Restores delete p q x := by
  intro ctx hproject hargs
  obtain ⟨d, i, hrequire, hparse, hfound, hremoved, hfps⟩ :=
    Context.undo_steps (g := deleteGrammar) (fun _ => rfl) hids hp hc hq hid hproject hargs
  rw [← hfps] at hs
  unfold delete
  simp only [hrequire, hparse, requireId_undoArguments hx, hfound, hid, hremoved, hs, bind,
    Except.bind, pure, Except.pure]
  exact ⟨_, rfl, rfl, rfl⟩

theorem Notes.restores (hids : p.TextIds) (hp : p.Typed) (hc : p.composition = some c)
    {note : Note} (hq : Collection.notes.append p note = .ok q) (hid : note.id = .text x)
    (hx : x ≠ "") (hs : Duration.textAt p.fps note.time = .ok s) : Restores delete p q x := by
  intro ctx hproject hargs
  obtain ⟨d, i, hrequire, hparse, hfound, hremoved, hfps⟩ :=
    Context.undo_steps (g := deleteGrammar) (fun _ => rfl) hids hp hc hq hid hproject hargs
  rw [← hfps] at hs
  unfold delete
  simp only [hrequire, hparse, requireId_undoArguments hx, hfound, hid, hremoved, hs, bind,
    Except.bind, pure, Except.pure]
  exact ⟨_, rfl, rfl, rfl⟩

namespace Elements

/-- The page of a new element is found by the element. -/
theorem owning_appended (hids : p.TextIds) (hc : p.composition = some c) {page : Page}
    {e : Element} (hpage : p.selectedPage? = some page)
    (hq : (Collection.elements page.id).append p e = .ok q) (hid : e.id.IsText)
    (hfree : e.id ∉ c.elementIds) :
    Collection.owning q e.id = .ok page.id ∧
      ∃ i x, Collection.pages.require q page.id = .ok (i, x) := by
  obtain ⟨before, after, hpages, hfirst⟩ := Project.selectedPage?_first hids hc hpage
  obtain ⟨xs, hxs, hnew, rfl⟩ := Collection.append_eq_ok.mp hq
  obtain rfl : page.elements = xs := by
    have hitems := Collection.items_elements.mpr ⟨c, before, page, after, hc, hpages, hfirst, rfl⟩
    exact Except.ok.inj (hitems.symm.trans hxs)
  rw [Collection.replace_elements hc hpages hfirst]
  let new := page.withElements (page.elements ++ [e])
  have howner : Project.Owner e.id before new e := by
    constructor
    · intro b hb d hd
      refine Bool.eq_false_iff.mpr fun hsame => hfree ?_
      rw [← (hasId_iff hid).mp hsame]
      refine List.mem_flatMap.mpr ⟨b, ?_, List.mem_map_of_mem hd⟩
      rw [hpages]
      exact List.mem_append_left _ hb
    · exact find?_hasId_eq_some.mpr ⟨page.elements, [], rfl, (hasId_iff hid).mpr rfl, hnew⟩
  have hfind : Composition.findElement? { c with pages := before ++ new :: after } e.id =
      some (new, e) := Project.findElement?_eq_some.mpr ⟨before, after, rfl, howner⟩
  constructor
  · unfold Collection.owning
    rw [Project.requireComposition, ok_bind, hfind]
    rfl
  · exact ⟨_, new, Collection.require_eq_ok.mpr ⟨before, after, rfl, rfl, hfirst.hasId,
      hfirst.first⟩⟩

/-- The label of an element does not fail, if the source is a text where it is looked at. -/
theorem displayName_eq_ok {e : Element} (h : e.kind ≠ .text → e.src.IsText) :
    ∃ s, e.displayName = .ok s := by
  unfold Element.displayName
  split
  · exact ⟨_, rfl⟩
  · rename_i hkind
    obtain ⟨s, hs⟩ := h hkind
    rw [hs]
    split <;> exact ⟨_, rfl⟩

theorem restores (hids : p.TextIds) (hp : p.Typed) (hc : p.composition = some c) {page : Page}
    {e : Element} (hpage : p.selectedPage? = some page)
    (hq : (Collection.elements page.id).append p e = .ok q) (hid : e.id = .text x) (hx : x ≠ "")
    (hfree : e.id ∉ c.elementIds) (hselected : p.appState.selectedElementId ≠ .text x)
    (hsrc : e.kind ≠ .text → e.src.IsText) : Restores delete p q x := by
  intro ctx hproject hargs
  obtain ⟨d, i, hrequire, hparse, hfound, hremoved, -⟩ :=
    Context.undo_steps (g := deleteGrammar) (fun _ => rfl) hids hp hc hq hid hproject hargs
  obtain ⟨howning, k, found, hplace⟩ := owning_appended hids hc hpage hq ⟨x, hid⟩ hfree
  obtain ⟨label, hlabel⟩ := displayName_eq_ok hsrc
  have haim : target q [(undoArguments x).nonempty? "id"] = .ok (.text x) := by
    rw [nonempty?_undoArguments hx]
    rfl
  have hlocate : locate q (.text x) = .ok (page.id, e) := by
    rw [hid] at howning
    unfold locate
    rw [howning, ok_bind, hfound]
    rfl
  have hother : q.appState.selectedElementId.same (.text x) = false := by
    obtain ⟨xs, -, -, rfl⟩ := Collection.append_eq_ok.mp hq
    rw [Collection.appState_replace]
    exact Bool.eq_false_iff.mpr (mt Value.same_text_iff.mp hselected)
  unfold delete
  simp only [hrequire, hparse, haim, hlocate, hplace, hremoved, hlabel, hother, bind, Except.bind,
    pure, Except.pure]
  exact ⟨_, rfl, rfl, rfl⟩

end Elements

end Restore

/-! ## Adding it -/

section Create
variable {ctx : Context} {o : Outcome} {j j' : Journal}

theorem Tracks.create_appends (h : Yields (create ctx) j o j') : ∃ p c a q x s,
    ctx.project = some p ∧ p.composition = some c ∧ Collection.audios.append p a = .ok q ∧
      a.id = .text x ∧ x ≠ "" ∧ Duration.textAt p.fps a.duration = .ok s ∧
      o.Answers (some q) (.text x) := by
  unfold create added describe at h
  simp only [yields_bind, yields_lift, yields_draw, Prod.exists, Context.require_eq_ok,
    bind_eq_ok, pure_eq_ok] at h
  obtain ⟨p, c, _, ⟨⟨hp, hc⟩, rfl⟩, args, _, ⟨hargs, rfl⟩, src, _, -, taken, _, -, x, _,
    ⟨_, hx, rfl⟩, a, _, ⟨ha, rfl⟩, ⟨q, hq, _, ⟨_, -, s, hs, -⟩, rfl⟩, rfl⟩ := h
  have hid : a.id = .text x := by
    refine Changes.assign_keeps Audio.setOnlyBy_id ha fun d hd hname => ?_
    have hfield := Grammar.mem_fields_of_parse hargs d (Arguments.mem_of_mem_except hd)
    rw [List.mem_singleton.mp hname] at hfield
    exact absurd hfield (by decide)
  exact ⟨p, c, a, q, x, s, hp, hc, hq, hid, drawId_ne_empty hx, hs, hid ▸ Outcome.answers_done⟩

theorem Notes.create_appends (h : Yields (create ctx) j o j') : ∃ p c note q x s,
    ctx.project = some p ∧ p.composition = some c ∧ Collection.notes.append p note = .ok q ∧
      note.id = .text x ∧ x ≠ "" ∧ Duration.textAt p.fps note.time = .ok s ∧
      o.Answers (some q) (.text x) := by
  unfold create added at h
  simp only [yields_bind, yields_lift, yields_draw, Prod.exists, Context.require_eq_ok,
    bind_eq_ok, pure_eq_ok] at h
  obtain ⟨p, c, _, ⟨⟨hp, hc⟩, rfl⟩, args, _, -, text, _, -, x, _, ⟨_, hx, rfl⟩,
    ⟨q, hq, s, hs, rfl⟩, rfl⟩ := h
  exact ⟨p, c, _, q, x, s, hp, hc, hq, rfl, drawId_ne_empty hx, hs, Outcome.answers_done⟩

namespace Elements

/-- The source is a text or absent. -/
def SourceTyped : Entity.Field Element → Value → Prop :=
  Demands (α := Element) Element.Field.src fun v => v = .null ∨ v.IsText

theorem sourceTyped_restricts : Restricts ["src"] SourceTyped := by
  rintro f hf v rfl
  exact absurd (List.mem_singleton.mpr rfl) hf

theorem grammar_sourceTyped {r : Recipe} (hr : r ∈ recipes) : r.grammar.Fits SourceTyped := by
  have hmedia (command : String) : (mediaGrammar command).Fits SourceTyped := by
    refine .of_restricts sourceTyped_restricts (fun o ho => ?_) rfl
    obtain rfl := List.mem_singleton.mp ho
    exact .taking (f := .src) rfl fun _ _ _ h _ => .inr (Converter.text_isText h)
  simp only [recipes, List.mem_cons, List.not_mem_nil, or_false] at hr
  rcases hr with rfl | rfl | rfl
  · exact .of_restricts sourceTyped_restricts (fun o ho => absurd ho List.not_mem_nil) rfl
  · exact hmedia "new-image"
  · exact hmedia "new-video"

/-- A new image or video has a text as its source, if the sources that it may copy are texts. -/
theorem draft_src_isText {r : Recipe} {c : Composition} {files : Option FileStorage}
    {args : Arguments} {tokens : List String} {fps : Number} {e : Element} (hr : r ∈ recipes)
    (hargs : r.grammar.parse tokens fps = .ok args)
    (hsource : ∀ page ∈ c.pages, ∀ e ∈ page.elements, e.src = .null ∨ e.src.IsText)
    (h : draft r c files args = .ok e) (hkind : e.kind ≠ .text) : e.src.IsText := by
  have hkeeps : Keeps SourceTyped e := by
    refine draft_keeps (fun page hpage e he => keeps_demands.mpr (hsource page hpage e he))
      (keeps_demands.mpr (.inl rfl)) ?_ ?_ ((grammar_sourceTyped hr).arguments hargs) h
    · rintro f ⟨_, _, _, _, -, rfl⟩
      exact keeps_demands.mpr (.inl rfl)
    · rintro e f he ⟨_, _, _, _, -, rfl⟩
      exact keeps_demands.mpr (keeps_demands.mp he)
  rcases keeps_demands.mp hkeeps with hnull | htext
  · have htruthy := draft_src h hkind
    have hnull : e.src = .null := hnull
    rw [hnull] at htruthy
    cases htruthy
  · exact htext

end Elements

end Create

/-! ## The lines -/

/-- What a line that adds an item has done can be undone. -/
theorem Undoes.restores {deletion : String} {command : Command} {ctx : Context} {o : Outcome}
    {j j' : Journal} (hundoes : Undoes deletion command.name) (hmem : command ∈ Builtin.commands)
    (hproject : ctx.project = some p) (hids : p.TextIds) (hp : p.Typed)
    (h : Yields (command.handler ctx) j o j') :
    ∃ undo ∈ Builtin.commands, undo.name = deletion ∧ ∃ delete, undo.handler = .ofExcept delete ∧
      ∃ q x, o.Answers (some q) (.text x) ∧
        (p.appState.selectedElementId ≠ .text x → Restores delete p q x) := by
  generalize hname : command.name = name at hundoes
  cases hundoes with
  | track =>
      obtain rfl := Builtin.eq_of_name (d := Builtin.tracks[0]) hmem (by simp [Builtin.commands])
        hname
      obtain ⟨p', c, a, q, x, s, hp', hc, hq, hid, hx, hs, ho⟩ := Tracks.create_appends h
      cases hproject.symm.trans hp'
      exact ⟨Builtin.tracks[2], by simp [Builtin.commands], rfl, _, rfl, q, x, ho, fun _ =>
        Tracks.restores hids hp hc hq hid hx hs⟩
  | note =>
      obtain rfl := Builtin.eq_of_name (d := Builtin.notes[0]) hmem (by simp [Builtin.commands])
        hname
      obtain ⟨p', c, note, q, x, s, hp', hc, hq, hid, hx, hs, ho⟩ := Notes.create_appends h
      cases hproject.symm.trans hp'
      exact ⟨Builtin.notes[2], by simp [Builtin.commands], rfl, _, rfl, q, x, ho, fun _ =>
        Notes.restores hids hp hc hq hid hx hs⟩
  | element hr =>
      have heffect := effect_of_yields hmem h
      have hadds := Elements.command_mem hr
      rw [← hname] at hadds
      generalize command.name = name at hadds heffect
      cases heffect with
      | @createElement r p' q c args page e x n k o hr hreads hpage hdraft hx hq ho =>
          cases hproject.symm.trans hreads.project
          have hsrc : e.kind ≠ .text → e.src.IsText :=
            Elements.draft_src_isText hr hreads.args
              (fun page hpage => hp.sources page (Project.pages_eq hreads.composition ▸ hpage))
              hdraft
          exact ⟨Builtin.elements[4], by simp [Builtin.commands], rfl, _, rfl, q, x, ho,
            fun hselected => Elements.restores hids hp hreads.composition hpage hq rfl
              (drawId_ne_empty hx) (drawId_not_mem hx) hselected hsrc⟩
      | _ => exact absurd hadds (by decide)

namespace Session

variable {line : String} {command : Command} {j : Journal}

/-- The deletion is not asked about, and its answer brings the project before. -/
theorem answer_restores {ids : IdSource} {collaborators : Collaborators} {x : String}
    {delete : Context → Except Fault Outcome} (hcalls : Calls line command ["--id", x, "--yes"])
    (hhandler : command.handler = .ofExcept delete) (h : Restores delete p q x) :
    (answer ids collaborators (some q) line j).success = true ∧
      (answer ids collaborators (some q) line j).revised = some p := by
  have hconsent : (context ids collaborators (some q) ["--id", x, "--yes"]).args.any
      consentTokens.contains = true := List.any_eq_true.mpr ⟨"--yes", by simp [context], by decide⟩
  obtain ⟨o, ho, hsuccess, hrevised⟩ := h (context ids collaborators (some q) _) rfl rfl
  have hanswer : answer ids collaborators (some q) line j = o := by
    rw [answer_of_allowed hcalls (fun _ _ _ => .inl hconsent) hhandler, ho]
  rw [hanswer]
  exact ⟨hsuccess, hrevised⟩

/-- Whatever a line has added, a line that deletes it by the id reported brings back the project,
unless this id was selected before: all ids may be repeated, and the two lines may be run by
different sessions. -/
theorem answer_undone (hids : p.TextIds) (hp : p.Typed) {deletion : String} {tokens : List String}
    (hcalls : Calls line command tokens) (hundoes : Undoes deletion command.name)
    (ids : IdSource) (collaborators : Collaborators)
    (hsuccess : (answer ids collaborators (some p) line j).success = true) :
    ∃ q x, (answer ids collaborators (some p) line j).Answers (some q) (.text x) ∧
      (p.appState.selectedElementId ≠ .text x →
        ∀ (ids : IdSource) (collaborators : Collaborators) (line : String) (command : Command)
            (j : Journal), command.name = deletion → Calls line command ["--id", x, "--yes"] →
          (answer ids collaborators (some q) line j).success = true ∧
            (answer ids collaborators (some q) line j).revised = some p) := by
  rcases answer_ran ids collaborators (some p) line j with
    hrefuses | ⟨_, _, hcalls', -, t, j', hyields⟩
  · rw [hrefuses.success] at hsuccess
    cases hsuccess
  obtain ⟨rfl, rfl⟩ := hcalls.unique hcalls'
  obtain ⟨undo, hundo, hname, delete, hhandler, q, x, ho, hrestores⟩ :=
    hundoes.restores hcalls.mem rfl hids hp hyields
  refine ⟨q, x, ho, fun hselected ids collaborators line command j hcommand hcalls => ?_⟩
  obtain rfl := Builtin.eq_of_name hcalls.mem hundo (hcommand.trans hname.symm)
  exact answer_restores hcalls hhandler (hrestores hselected)

/-- A text is added to a page and deleted again, in a project with one note twice. -/
theorem text_added_and_deleted :
    let p := { Project.small "note" with notes := (Project.small "note").notes ++
      (Project.small "note").notes }
    let added := answer .counting {} (some p) "/new-text --text Hello" {}
    added.success = true ∧ added.entityId = .text "text-0-0" ∧ ∃ q, added.revised = some q ∧
      q.elementIds.length = 2 ∧
      (answer .counting {} (some q) "/del-elem --id text-0-0 --yes" {}).revised = some p := by
  intro p added
  have hids : p.TextIds := ⟨by decide, by decide, by decide, by decide⟩
  have hp : p.Typed := ⟨by simp [p, Project.small, Project.pages], by
    simp [p, Project.small, Project.pages, Elements.defaultText]⟩
  have hcalls : Calls "/new-text --text Hello" Builtin.elements[0] ["--text", "Hello"] :=
    ⟨"new-text", by decide +kernel, rfl⟩
  have hundo : Calls "/del-elem --id text-0-0 --yes" Builtin.elements[4]
      ["--id", "text-0-0", "--yes"] := ⟨"del-elem", by decide +kernel, rfl⟩
  have hsuccess : added.success = true := by decide +kernel
  have hid : added.entityId.isText "text-0-0" = true := by decide +kernel
  have hlength : added.revised.map (·.elementIds.length) = some 2 := by decide +kernel
  have htext : Elements.text ∈ Elements.recipes := List.mem_cons_self
  obtain ⟨q, x, hadded, hundone⟩ :=
    answer_undone hids hp hcalls (.element htext) .counting {} hsuccess
  have hx : added.entityId = .text x := hadded.entityId
  have hq : added.revised = some q := hadded.revised
  rw [Value.isText_iff, hx, Value.text.injEq] at hid
  obtain rfl := hid
  rw [hq, Option.map_some] at hlength
  have hrestored := hundone (by simp [p, Project.small]) .counting {} _ _ {} rfl hundo
  exact ⟨hsuccess, hx, q, hq, Option.some.inj hlength, hrestored.2⟩

end Session

end Montage
