/-
# What the built-in commands do

`Effect ctx name o` says what it means that the command `name`, run in the context
`ctx`, came to an end with the answer `o`: which project and arguments it read,
which operations on collections it went through, and with which project, which entity
and, where a page is shown, which document it answered.  There is one rule for each
command (one for the three that add elements), and the texts of the answers are left
out.

`effect_of_yields` is the inversion: a built-in command that comes to an end does
so by its rule.  Whatever is proved of commands is proved rule by rule from here,
and no later proof opens a command.
-/
import Montage.Command.Builtin
import Montage.Proofs.Collection

namespace Montage

/-- The command finds a project with a composition and reads its arguments by a grammar. -/
structure Context.Reads (ctx : Context) (g : Grammar) (p : Project) (c : Composition)
    (args : Arguments) : Prop where
  project : ctx.project = some p
  composition : p.composition = some c
  args : ctx.parse g = .ok args

/-- A project sets the frame rate at which arguments are read. -/
theorem Context.parse_of_project {ctx : Context} {p : Project} (hp : ctx.project = some p)
    (g : Grammar) : ctx.parse g = g.parse ctx.args (.int p.fps) := by
  rw [parse, fps, hp]

/-- A success, with the project after it, absent if it is the one before, and the id of the entity
that was concerned. -/
structure Outcome.Answers (o : Outcome) (revised : Option Project) (id : Value) : Prop where
  success : o.success = true
  handled : o.handled = true
  revised : o.revised = revised
  entityId : o.entityId = id

/-- The kinds of elements that commands add. -/
def Elements.recipes : List Elements.Recipe := [Elements.text, Elements.image, Elements.video]

theorem Elements.command_mem {r : Elements.Recipe} (hr : r ∈ Elements.recipes) :
    r.grammar.command ∈ ["new-text", "new-image", "new-video"] := by
  simp only [recipes, List.mem_cons, List.not_mem_nil, or_false] at hr
  rcases hr with rfl | rfl | rfl <;> decide

/-- Names of other commands are not among those of the commands that add elements. -/
theorem Elements.command_not_mem {r : Elements.Recipe} (hr : r ∈ Elements.recipes)
    {names : List String} (h : ∀ s ∈ ["new-text", "new-image", "new-video"], s ∉ names) :
    r.grammar.command ∉ names :=
  h _ (command_mem hr)

/-- What a command of the catalog does: its name, and its answer. -/
inductive Effect (ctx : Context) : String → Outcome → Prop
  | createTrack {p q : Project} {c : Composition} {args : Arguments} {src id : String}
      {n k : Nat} {a : Audio} {o : Outcome} :
      ctx.Reads Tracks.createGrammar p c args →
      args.nonempty? "src" = some src →
      Yields (drawId ctx.ids "audio" (c.audios.map (·.id))) n id k →
      Changes.assign (Tracks.blank id src p.fps) (args.except ["src"]) = .ok a →
      Collection.audios.append p a = .ok q →
      o.Answers (some q) a.id → Effect ctx "new-audio" o
  | changeTrack {p : Project} {c : Composition} {args : Arguments} {id : String}
      {move : Option Move} {u : Update Audio} {o : Outcome} :
      ctx.Reads Tracks.changeGrammar p c args →
      args.nonempty? "id" = some id →
      args.move? = .ok move →
      Collection.audios.update p (.text id) (args.except ["id", "before", "after"]) (.int p.fps)
        Tracks.frameFields move .relative = .ok u →
      o.Answers (if u.changed then u.revised else none) u.item.id → Effect ctx "set-audio" o
  | deleteTrack {p q : Project} {c : Composition} {args : Arguments} {id : String} {i : Nat}
      {a : Audio} {o : Outcome} :
      ctx.Reads Tracks.deleteGrammar p c args →
      args.nonempty? "id" = some id →
      Collection.audios.require p (.text id) = .ok (i, a) →
      Collection.audios.remove p [a.id] = .ok q →
      o.Answers (some q) a.id → Effect ctx "del-audio" o
  | createElement {r : Elements.Recipe} {p q : Project} {c : Composition} {args : Arguments}
      {page : Page} {e : Element} {id : String} {n k : Nat} {o : Outcome} :
      r ∈ Elements.recipes →
      ctx.Reads r.grammar p c args →
      p.selectedPage? = some page →
      Elements.draft r c ctx.collaborators.files args = .ok e →
      Yields (drawId ctx.ids r.kind.name c.elementIds) n id k →
      (Collection.elements page.id).append p { e with id := .text id } = .ok q →
      o.Answers (some q) (.text id) → Effect ctx r.grammar.command o
  | changeElement {p : Project} {c : Composition} {args : Arguments} {aim pageId : Value}
      {e : Element} {move : Option Move} {u : Update Element} {o : Outcome} :
      ctx.Reads Elements.changeGrammar p c args →
      Elements.target p [args.nonempty? "id", args.nonempty? "target"] = .ok aim →
      args.move? = .ok move →
      Elements.locate p aim = .ok (pageId, e) →
      Elements.checkOptions e (args.except ["target", "id", "before", "after"]) = .ok () →
      (Collection.elements pageId).update p aim (args.except ["target", "id", "before", "after"])
        (.int p.fps) Elements.frameFields move .absolute = .ok u →
      o.Answers (if u.changed then u.revised else none) u.item.id → Effect ctx "set-element" o
  | deleteElement {p q : Project} {c : Composition} {args : Arguments} {aim pageId : Value}
      {e : Element} {o : Outcome} :
      ctx.Reads Elements.deleteGrammar p c args →
      Elements.target p [args.nonempty? "id"] = .ok aim →
      Elements.locate p aim = .ok (pageId, e) →
      (Collection.elements pageId).remove p [aim] = .ok q →
      o.Answers
        (some (if p.appState.selectedElementId.same aim then Elements.withoutSelection q else q))
        e.id →
      Effect ctx "del-elem" o
  | createNote {p q : Project} {c : Composition} {args : Arguments} {text id : String}
      {n k : Nat} {o : Outcome} :
      ctx.Reads Notes.createGrammar p c args →
      args.nonempty? "text" = some text →
      Yields (drawId ctx.ids "note" (p.notes.map (·.id))) n id k →
      Collection.notes.append p
        { id := .text id, time := (args.get? "time").getD p.appState.currentTime
          text := .text text, createdAt := .text ctx.ids.now } = .ok q →
      o.Answers (some q) (.text id) → Effect ctx "new-note" o
  | changeNote {p : Project} {c : Composition} {args : Arguments} {id : String}
      {u v : Update Note} {o : Outcome} :
      ctx.Reads Notes.changeGrammar p c args →
      args.nonempty? "id" = some id →
      Collection.notes.update p (.text id) (args.except ["id"]) (.int p.fps) ["time"] none
        .relative = .ok u →
      Notes.stamp ctx.ids.now u = .ok v →
      o.Answers (if v.changed then v.revised else none) v.item.id → Effect ctx "set-note" o
  | deleteNote {p q : Project} {c : Composition} {args : Arguments} {id : String} {i : Nat}
      {note : Note} {o : Outcome} :
      ctx.Reads Notes.deleteGrammar p c args →
      args.nonempty? "id" = some id →
      Collection.notes.require p (.text id) = .ok (i, note) →
      Collection.notes.remove p [note.id] = .ok q →
      o.Answers (some q) note.id → Effect ctx "del-note" o
  | listNotes {p : Project} {args : Arguments} {o : Outcome} :
      ctx.project = some p →
      ctx.parse Notes.listGrammar = .ok args →
      o.Answers none .null → Effect ctx "ls-notes" o
  | createPages {p q : Project} {c : Composition} {args : Arguments} {source : Option Page}
      {page : Page} {pages : List Page} {n k : Nat} {o : Outcome} :
      ctx.Reads Pages.createGrammar p c args →
      Pages.copySource c args = .ok source →
      Yields (Pages.draft ctx.ids p c source (Pages.count args)) n (page :: pages) k →
      Collection.pages.insert p (Pages.insertionPlace p) (page :: pages) = .ok q →
      o.Answers (some (Pages.withSelected q page.id)) page.id → Effect ctx "new-page" o
  | changePage {p : Project} {c : Composition} {args : Arguments} {page : Page}
      {move : Option Move} {newId : Option String} {u : Update Page} {o : Outcome} :
      ctx.Reads Pages.changeGrammar p c args →
      Pages.target p [args.nonempty? "id", args.nonempty? "target"] = .ok page →
      args.move? = .ok move →
      Pages.newId? p page args = .ok newId →
      Collection.pages.update p page.id
        (args.except ["target", "id", "new_id", "before", "after"] ++
          (newId.map fun id => ("id", Value.text id)).toList)
        (.int p.fps) ["duration"] move .relative = .ok u →
      o.Answers
        (if u.changed then
          match newId with
          | some id => u.revised.map (Pages.reselect page.id id)
          | none => u.revised
        else none) u.item.id →
      Effect ctx "set-page" o
  | deletePages {p q : Project} {c : Composition} {args : Arguments} {page found : Page}
      {place : Nat} {o : Outcome} :
      ctx.Reads Pages.deleteGrammar p c args →
      Pages.target p [args.nonempty? "id"] = .ok page →
      Collection.pages.require p page.id = .ok (place, found) →
      ((c.pages.drop place).take (Pages.count args)).length < c.pages.length →
      Pages.without p place (((c.pages.drop place).take (Pages.count args)).map (·.id)) = .ok q →
      o.Answers (some q) page.id → Effect ctx "del-page" o
  | displayPage {p : Project} {c : Composition} {args : Arguments} {page : Page} {o : Outcome} :
      ctx.Reads Pages.displayGrammar p c args →
      Pages.target p [args.nonempty? "id"] = .ok page →
      o.data = Document.ofPage page →
      o.Answers none page.id → Effect ctx "ls-page" o
  | displayComposition {p : Project} {c : Composition} {args : Arguments} {o : Outcome} :
      ctx.Reads Settings.displayGrammar p c args →
      o.Answers none .null → Effect ctx "ls-comp" o
  | changeComposition {p : Project} {c : Composition} {args : Arguments} {o : Outcome} :
      ctx.Reads Settings.changeGrammar p c args →
      o.Answers
        (if (Settings.changeLines p c args).isEmpty then none
          else some (Settings.changed p c args)) .null →
      Effect ctx "set-comp" o
  | listFiles {args : Arguments} {o : Outcome} :
      ctx.parse Settings.listFilesGrammar = .ok args →
      o.Answers none .null → Effect ctx "ls-files" o
  | zoom {p : Project} {c : Composition} {args : Arguments} {x : Binary64} {level : Value}
      {o : Outcome} :
      ctx.Reads Settings.zoomGrammar p c args →
      Settings.requirePercentage args = .ok x →
      level = .float ((Settings.clampPercentage x).div (Binary64.ofInt 100)) →
      o.Answers
        (if p.appState.zoomLevel.same level then none
          else some (p.withState fun s => { s with zoomLevel := level })) .null →
      Effect ctx "zoom-tl" o
  | listCommands {args : Arguments} {o : Outcome} :
      ctx.parse Builtin.helpGrammar = .ok args →
      o.Answers none .null → Effect ctx "help" o

/-! ## Answers -/

namespace Outcome

theorem answers_done {title body : String} {revised : Option Project} {id : Value}
    {changes : List String} : (done title body revised id changes).Answers revised id :=
  ⟨rfl, rfl, rfl, rfl⟩

theorem answers_info {icon title body : String} {data : Value} :
    (info icon title body data).Answers none .null :=
  ⟨rfl, rfl, rfl, rfl⟩

theorem answers_ofUpdate {α : Type} [Entity α] {label : String} {u : Update α} {total : Nat} :
    (ofUpdate label u total).Answers (if u.changed then u.revised else none)
      (Entity.id u.item) := by
  unfold ofUpdate
  cases u.changed with
  | true => exact answers_done
  | false => exact ⟨rfl, rfl, rfl, rfl⟩

end Outcome

/-! ## What a command reads -/

namespace Context

variable {ctx : Context} {p : Project} {c : Composition}

theorem requireProject_eq_ok {p? : Option Project} : requireProject p? = .ok p ↔ p? = some p := by
  cases p? <;> simp [requireProject]

theorem require_eq_ok :
    ctx.require = .ok (p, c) ↔ ctx.project = some p ∧ p.composition = some c := by
  unfold require
  simp only [bind_eq_ok, pure_eq_ok, requireProject_eq_ok, Collection.requireComposition_eq_ok,
    Prod.mk.injEq]
  constructor
  · rintro ⟨q, hq, d, hd, rfl, rfl⟩
    exact ⟨hq, hd⟩
  · rintro ⟨hp, hc⟩
    exact ⟨p, hp, c, hc, rfl, rfl⟩

end Context

theorem Arguments.requireId_eq_ok {args : Arguments} {title detail id : String} :
    args.requireId title detail = .ok id ↔ args.nonempty? "id" = some id := by
  unfold requireId
  cases args.nonempty? "id" <;> simp

section Commands
variable {ctx : Context} {o : Outcome} {j j' : Journal}

/-! ## The commands on audio tracks -/

namespace Tracks

theorem requireSource_eq_ok {args : Arguments} {src : String} :
    requireSource args = .ok src ↔ args.nonempty? "src" = some src := by
  unfold requireSource
  cases args.nonempty? "src" <;> simp

theorem create_effect (h : Yields (create ctx) j o j') : Effect ctx "new-audio" o := by
  unfold create added at h
  simp only [yields_bind, yields_lift, yields_draw, Prod.exists, Context.require_eq_ok,
    requireSource_eq_ok, Collection.ids, bind_eq_ok, pure_eq_ok] at h
  obtain ⟨p, c, j₀, ⟨⟨hp, hc⟩, rfl⟩, args, _, ⟨hargs, rfl⟩, src, _, ⟨hsrc, rfl⟩, taken, _,
    ⟨⟨audios, haudios, rfl⟩, rfl⟩, id, j₁, ⟨k, hid, rfl⟩, a, _, ⟨ha, rfl⟩,
    ⟨q, hq, _, -, rfl⟩, rfl⟩ := h
  obtain ⟨c', hc', rfl⟩ := Collection.items_audios.mp haudios
  cases hc.symm.trans hc'
  exact .createTrack ⟨hp, hc, hargs⟩ hsrc hid ha hq Outcome.answers_done

theorem change_effect (h : change ctx = .ok o) : Effect ctx "set-audio" o := by
  unfold change at h
  simp only [bind_eq_ok, pure_eq_ok, error_bind, guard_eq_ok, Prod.exists, Context.require_eq_ok,
    Arguments.requireId_eq_ok] at h
  obtain ⟨p, c, ⟨hp, hc⟩, args, hargs, id, hid, move, hmove, -, u, hu, rfl⟩ := h
  exact .changeTrack ⟨hp, hc, hargs⟩ hid hmove hu Outcome.answers_ofUpdate

theorem delete_effect (h : delete ctx = .ok o) : Effect ctx "del-audio" o := by
  unfold delete at h
  simp only [bind_eq_ok, pure_eq_ok, Prod.exists, Context.require_eq_ok,
    Arguments.requireId_eq_ok] at h
  obtain ⟨p, c, ⟨hp, hc⟩, args, hargs, id, hid, i, a, ha, q, hq, _, -, rfl⟩ := h
  exact .deleteTrack ⟨hp, hc, hargs⟩ hid ha hq Outcome.answers_done

end Tracks

/-! ## The commands on elements -/

namespace Elements

theorem requirePage_eq_ok {p : Project} {page : Page} :
    requirePage p = .ok page ↔ p.selectedPage? = some page := by
  unfold requirePage
  cases p.selectedPage? <;> simp

theorem create_effect {r : Recipe} (hr : r ∈ recipes) (h : Yields (create r ctx) j o j') :
    Effect ctx r.grammar.command o := by
  unfold create added at h
  simp only [yields_bind, yields_lift, yields_draw, Prod.exists, Context.require_eq_ok,
    requirePage_eq_ok, bind_eq_ok, pure_eq_ok] at h
  obtain ⟨p, c, j₀, ⟨⟨hp, hc⟩, rfl⟩, args, _, ⟨hargs, rfl⟩, page, _, ⟨hpage, rfl⟩, e, _,
    ⟨he, rfl⟩, id, j₁, ⟨k, hid, rfl⟩, ⟨q, hq, _, -, rfl⟩, rfl⟩ := h
  exact .createElement hr ⟨hp, hc, hargs⟩ hpage he hid hq Outcome.answers_done

theorem change_effect (h : change ctx = .ok o) : Effect ctx "set-element" o := by
  unfold change at h
  simp only [bind_eq_ok, pure_eq_ok, error_bind, guard_eq_ok, Prod.exists,
    Context.require_eq_ok] at h
  obtain ⟨p, c, ⟨hp, hc⟩, args, hargs, aim, haim, move, hmove, -, pageId, e, he, _, hopts, u, hu,
    _, -, rfl⟩ := h
  exact .changeElement ⟨hp, hc, hargs⟩ haim hmove he hopts hu Outcome.answers_ofUpdate

theorem delete_effect (h : delete ctx = .ok o) : Effect ctx "del-elem" o := by
  unfold delete at h
  simp only [bind_eq_ok, pure_eq_ok, Prod.exists, Context.require_eq_ok] at h
  obtain ⟨p, c, ⟨hp, hc⟩, args, hargs, aim, haim, pageId, e, he, _, page, -, q, hq, _, -, rfl⟩ := h
  exact .deleteElement ⟨hp, hc, hargs⟩ haim he hq Outcome.answers_done

end Elements

/-! ## The commands on notes -/

namespace Notes

theorem requireText_eq_ok {args : Arguments} {text : String} :
    requireText args = .ok text ↔ args.nonempty? "text" = some text := by
  unfold requireText
  cases args.nonempty? "text" <;> simp

theorem create_effect (h : Yields (create ctx) j o j') : Effect ctx "new-note" o := by
  unfold create added at h
  simp only [yields_bind, yields_lift, yields_draw, Prod.exists, Context.require_eq_ok,
    requireText_eq_ok, bind_eq_ok, pure_eq_ok] at h
  obtain ⟨p, c, j₀, ⟨⟨hp, hc⟩, rfl⟩, args, _, ⟨hargs, rfl⟩, text, _, ⟨htext, rfl⟩, id, j₁,
    ⟨k, hid, rfl⟩, ⟨q, hq, _, -, rfl⟩, rfl⟩ := h
  exact .createNote ⟨hp, hc, hargs⟩ htext hid hq Outcome.answers_done

theorem change_effect (h : change ctx = .ok o) : Effect ctx "set-note" o := by
  unfold change at h
  simp only [bind_eq_ok, pure_eq_ok, error_bind, guard_eq_ok, Prod.exists, Context.require_eq_ok,
    Arguments.requireId_eq_ok] at h
  obtain ⟨p, c, ⟨hp, hc⟩, args, hargs, id, hid, -, u, hu, v, hv, rfl⟩ := h
  exact .changeNote ⟨hp, hc, hargs⟩ hid hu hv Outcome.answers_ofUpdate

theorem delete_effect (h : delete ctx = .ok o) : Effect ctx "del-note" o := by
  unfold delete at h
  simp only [bind_eq_ok, pure_eq_ok, Prod.exists, Context.require_eq_ok,
    Arguments.requireId_eq_ok] at h
  obtain ⟨p, c, ⟨hp, hc⟩, args, hargs, id, hid, i, note, hnote, q, hq, _, -, rfl⟩ := h
  exact .deleteNote ⟨hp, hc, hargs⟩ hid hnote hq Outcome.answers_done

theorem list_effect (h : list ctx = .ok o) : Effect ctx "ls-notes" o := by
  unfold list at h
  simp only [bind_eq_ok, Context.requireProject_eq_ok] at h
  obtain ⟨p, hp, args, hargs, _, -, notes, -, h⟩ := h
  split at h
  · cases h
    exact .listNotes hp hargs Outcome.answers_info
  · simp only [bind_eq_ok, pure_eq_ok] at h
    obtain ⟨_, -, rfl⟩ := h
    exact .listNotes hp hargs Outcome.answers_info

end Notes

/-! ## The commands on pages -/

namespace Pages

theorem create_effect (h : Yields (create ctx) j o j') : Effect ctx "new-page" o := by
  unfold create added at h
  simp only [yields_bind, yields_lift, yields_draw, Prod.exists, Context.require_eq_ok,
    bind_eq_ok] at h
  obtain ⟨p, c, j₀, ⟨⟨hp, hc⟩, rfl⟩, args, _, ⟨hargs, rfl⟩, source, _, ⟨hsource, rfl⟩, pages, j₁,
    ⟨k, hpages, rfl⟩, ⟨q, hq, h⟩, rfl⟩ := h
  cases pages with
  | nil => cases h
  | cons page pages =>
      cases h
      exact .createPages ⟨hp, hc, hargs⟩ hsource hpages hq Outcome.answers_done

theorem change_effect (h : change ctx = .ok o) : Effect ctx "set-page" o := by
  unfold change at h
  simp only [bind_eq_ok, pure_eq_ok, error_bind, guard_eq_ok, Prod.exists,
    Context.require_eq_ok] at h
  obtain ⟨p, c, ⟨hp, hc⟩, args, hargs, page, hpage, move, hmove, newId, hnewId, -, u, hu, rfl⟩ := h
  exact .changePage ⟨hp, hc, hargs⟩ hpage hmove hnewId hu Outcome.answers_ofUpdate

theorem delete_effect (h : delete ctx = .ok o) : Effect ctx "del-page" o := by
  unfold delete at h
  simp only [bind_eq_ok, error_bind, guard_eq_ok, Prod.exists, Context.require_eq_ok,
    Nat.not_le] at h
  obtain ⟨p, c, ⟨hp, hc⟩, args, hargs, page, hpage, place, found, hfound, hlt, q, hq, h⟩ := h
  split at h
  · cases h
  · cases h
    exact .deletePages ⟨hp, hc, hargs⟩ hpage hfound hlt hq Outcome.answers_done

theorem display_effect (h : display ctx = .ok o) : Effect ctx "ls-page" o := by
  unfold display at h
  simp only [bind_eq_ok, pure_eq_ok, Prod.exists, Context.require_eq_ok] at h
  obtain ⟨p, c, ⟨hp, hc⟩, args, hargs, page, hpage, _, -, rfl⟩ := h
  exact .displayPage ⟨hp, hc, hargs⟩ hpage rfl ⟨rfl, rfl, rfl, rfl⟩

end Pages

/-! ## The commands on the composition and the session -/

namespace Settings

theorem openViewer_answers {viewer : Option Viewer} (h : Yields (openViewer viewer) j o j') :
    o.Answers none .null := by
  unfold openViewer at h
  cases viewer with
  | none => exact absurd h not_yields_throw
  | some v =>
      obtain ⟨_, _, -, h⟩ := yields_bind.mp h
      obtain ⟨rfl, -⟩ := yields_pure.mp h
      exact Outcome.answers_info

theorem display_effect (h : Yields (display ctx) j o j') : Effect ctx "ls-comp" o := by
  unfold display at h
  simp only [yields_bind, yields_lift, Prod.exists, Context.require_eq_ok] at h
  obtain ⟨p, c, j₀, ⟨⟨hp, hc⟩, rfl⟩, args, _, ⟨hargs, rfl⟩, h⟩ := h
  split at h
  · exact .displayComposition ⟨hp, hc, hargs⟩ (openViewer_answers h)
  · simp only [yields_bind, yields_lift, yields_pure] at h
    obtain ⟨_, _, -, rfl, -⟩ := h
    exact .displayComposition ⟨hp, hc, hargs⟩ Outcome.answers_info

theorem change_effect (h : change ctx = .ok o) : Effect ctx "set-comp" o := by
  unfold change at h
  simp only [bind_eq_ok, error_bind, guard_eq_ok, Prod.exists, Context.require_eq_ok] at h
  obtain ⟨p, c, ⟨hp, hc⟩, args, hargs, -, h⟩ := h
  split at h
  · rename_i hnone
    cases h
    exact .changeComposition ⟨hp, hc, hargs⟩ (if_pos hnone ▸ Outcome.answers_info)
  · rename_i hsome
    cases h
    exact .changeComposition ⟨hp, hc, hargs⟩ (if_neg hsome ▸ Outcome.answers_done)

theorem listFiles_effect (h : listFiles ctx = .ok o) : Effect ctx "ls-files" o := by
  unfold listFiles at h
  simp only [bind_eq_ok] at h
  obtain ⟨args, hargs, _, -, files, -, h⟩ := h
  split at h
  · cases h
    exact .listFiles hargs Outcome.answers_info
  · simp only [bind_eq_ok, pure_eq_ok] at h
    obtain ⟨_, -, rfl⟩ := h
    exact .listFiles hargs Outcome.answers_info

theorem zoom_effect (h : zoom ctx = .ok o) : Effect ctx "zoom-tl" o := by
  unfold zoom at h
  simp only [bind_eq_ok, pure_eq_ok, Prod.exists, Context.require_eq_ok] at h
  obtain ⟨p, c, ⟨hp, hc⟩, args, hargs, x, hx, rfl⟩ := h
  exact .zoom ⟨hp, hc, hargs⟩ hx rfl ⟨rfl, rfl, rfl, rfl⟩

end Settings

theorem Builtin.listCommands_effect (h : listCommands ctx = .ok o) : Effect ctx "help" o := by
  unfold listCommands at h
  simp only [bind_eq_ok, pure_eq_ok] at h
  obtain ⟨args, hargs, rfl⟩ := h
  exact .listCommands hargs Outcome.answers_info

/-! ## All commands -/

/-- A built-in command that comes to an end has the effect of its name. -/
theorem effect_of_yields {command : Command} (hmem : command ∈ Builtin.commands)
    (h : Yields (command.handler ctx) j o j') : Effect ctx command.name o := by
  simp only [Builtin.commands, Builtin.tracks, Builtin.elements, Builtin.notes, Builtin.pages,
    Builtin.settings, List.cons_append, List.nil_append, List.mem_cons, List.not_mem_nil,
    or_false] at hmem
  rcases hmem with rfl | rfl | rfl | rfl | rfl | rfl | rfl | rfl | rfl | rfl | rfl | rfl | rfl |
    rfl | rfl | rfl | rfl | rfl | rfl | rfl | rfl
  · exact Tracks.create_effect h
  · exact Tracks.change_effect (yields_lift.mp h).1
  · exact Tracks.delete_effect (yields_lift.mp h).1
  · exact Elements.create_effect (r := Elements.text) (by simp [Elements.recipes]) h
  · exact Elements.create_effect (r := Elements.image) (by simp [Elements.recipes]) h
  · exact Elements.create_effect (r := Elements.video) (by simp [Elements.recipes]) h
  · exact Elements.change_effect (yields_lift.mp h).1
  · exact Elements.delete_effect (yields_lift.mp h).1
  · exact Notes.create_effect h
  · exact Notes.change_effect (yields_lift.mp h).1
  · exact Notes.delete_effect (yields_lift.mp h).1
  · exact Notes.list_effect (yields_lift.mp h).1
  · exact Pages.create_effect h
  · exact Pages.change_effect (yields_lift.mp h).1
  · exact Pages.delete_effect (yields_lift.mp h).1
  · exact Pages.display_effect (yields_lift.mp h).1
  · exact Settings.display_effect h
  · exact Settings.change_effect (yields_lift.mp h).1
  · exact Settings.listFiles_effect (yields_lift.mp h).1
  · exact Settings.zoom_effect (yields_lift.mp h).1
  · exact Builtin.listCommands_effect (yields_lift.mp h).1

end Commands

end Montage
