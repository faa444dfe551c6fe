/-
# The part of a project that a command owns

Every command rebuilds the project from copies of its parts, an element inside a
page inside the composition inside the project.  `Frame p name id q` says of the
command `name`, which concerned the entity `id`, how the project `q` after it is
made of the project `p` before it: each rule writes `q` as `p` with other values of
the command's own fields, so whatever a rule does not name is equal.

    audio commands        the audio tracks
    new-text, …           one more element, the last of the selected page
    set-element           the elements of the page that holds the element
    del-elem              these, and the selection if it was the element
    note commands         the notes
    new-page, del-page    the pages and both selections
    set-page              the pages and the selected page
    set-comp              title, frame rate, canvas
    zoom-tl               the zoom level
    ls-…, help            nothing

A rule admits the values that were there before, so a command that changed nothing
keeps to its frame as well.
-/
import Montage.Proofs.Failure
import Montage.Proofs.Revision

namespace Montage

/-- What a command may make of a project. -/
inductive Frame (p : Project) : String → Value → Project → Prop
  | audios {name : String} {id : Value} {c : Composition} {audios : List Audio} :
      name ∈ ["new-audio", "set-audio", "del-audio"] →
      p.composition = some c →
      Frame p name id { p with composition := some { c with audios } }
  | newElement {name : String} {c : Composition} {before after : List Page} {page : Page}
      {e : Element} :
      name ∈ ["new-text", "new-image", "new-video"] →
      p.composition = some c →
      p.selectedPage? = some page →
      c.pages = before ++ page :: after →
      Frame p name e.id { p with
        composition := some { c with
          pages := before ++ page.withElements (page.elements ++ [e]) :: after } }
  | setElement {id noElements : Value} {c : Composition} {before after : List Page} {page : Page}
      {elements : List Element} :
      p.composition = some c →
      c.pages = before ++ page :: after →
      (∀ b ∈ before, ¬ b.Holds id) → page.Holds id →
      Frame p "set-element" id { p with
        composition := some { c with
          pages := before ++ { page with elements, noElements } :: after } }
  | deleteElement {id noElements selected : Value} {c : Composition} {before after : List Page}
      {page : Page} {elements : List Element} :
      p.composition = some c →
      c.pages = before ++ page :: after →
      (∀ b ∈ before, ¬ b.Holds id) → page.Holds id →
      (selected = p.appState.selectedElementId ∨
        (p.appState.selectedElementId = id ∧ selected = .null)) →
      Frame p "del-elem" id { p with
        composition := some { c with
          pages := before ++ { page with elements, noElements } :: after }
        appState := { p.appState with selectedElementId := selected } }
  | notes {name : String} {id : Value} {notes : List Note} :
      name ∈ ["new-note", "set-note", "del-note"] →
      Frame p name id { p with notes }
  | pages {name : String} {id pageId elementId : Value} {c : Composition} {pages : List Page} :
      name ∈ ["new-page", "set-page", "del-page"] →
      (name = "set-page" → elementId = p.appState.selectedElementId) →
      p.composition = some c →
      Frame p name id { p with
        composition := some { c with pages }
        appState := { p.appState with
          selectedPageId := pageId, selectedElementId := elementId } }
  | settings {id name : Value} {c : Composition} {fps width height : Int} :
      p.composition = some c →
      Frame p "set-comp" id { p with
        name, composition := some { c with fps, width, height } }
  | zoom {id zoomLevel : Value} :
      Frame p "zoom-tl" id { p with appState := { p.appState with zoomLevel } }
  | listing {name : String} {id : Value} :
      name ∈ Builtin.listings → Frame p name id p

namespace Frame

variable {p q : Project} {name : String} {id : Value}

/-- No command changes the project's id, the playhead or the unknown entries of the state. -/
theorem fixed (h : Frame p name id q) :
    q.id = p.id ∧ q.appState.currentTime = p.appState.currentTime ∧
      q.appState.extra = p.appState.extra := by
  cases h <;> exact ⟨rfl, rfl, rfl⟩

/-! ## Other items in a collection -/

section Replace
variable {c : Composition}

theorem replace_audios (hname : name ∈ ["new-audio", "set-audio", "del-audio"])
    (hc : p.composition = some c) (audios : List Audio) :
    Frame p name id (Collection.audios.replace p audios) := by
  rw [Collection.replace_audios hc]
  exact .audios hname hc

theorem audios_self (hname : name ∈ ["new-audio", "set-audio", "del-audio"])
    (hc : p.composition = some c) : Frame p name id p := by
  have h : Frame p name id { p with composition := some { c with audios := c.audios } } :=
    .audios hname hc
  rwa [Project.withComposition_self hc] at h

theorem elements_self {before after : List Page} {page : Page} (hc : p.composition = some c)
    (hpages : c.pages = before ++ page :: after) (hfirst : ∀ b ∈ before, ¬ b.Holds id)
    (hholds : page.Holds id) : Frame p "set-element" id p := by
  have h : Frame p "set-element" id { p with
      composition := some { c with
        pages := before ++
          { page with elements := page.elements, noElements := page.noElements } :: after } } :=
    .setElement hc hpages hfirst hholds
  rwa [← hpages, Project.withComposition_self hc] at h

theorem replace_notes (hname : name ∈ ["new-note", "set-note", "del-note"])
    (notes : List Note) : Frame p name id (Collection.notes.replace p notes) :=
  .notes hname

theorem notes_self (hname : name ∈ ["new-note", "set-note", "del-note"]) : Frame p name id p := by
  have h : Frame p name id { p with notes := p.notes } := .notes hname
  exact h

/-- Other pages, and perhaps another selected page. -/
theorem replace_pages (hname : name ∈ ["new-page", "set-page", "del-page"])
    (hc : p.composition = some c) (pages : List Page) (pageId : Value) :
    Frame p name id ((Collection.pages.replace p pages).withState
      fun s => { s with selectedPageId := pageId }) := by
  rw [Collection.replace_pages hc]
  exact .pages hname (fun _ => rfl) hc

theorem pages_self (hname : name ∈ ["new-page", "set-page", "del-page"])
    (hc : p.composition = some c) : Frame p name id p := by
  have h : Frame p name id { p with composition := some { c with pages := c.pages } } :=
    .pages hname (fun _ => rfl) hc
  rwa [Project.withComposition_self hc] at h

theorem settings_self (hc : p.composition = some c) : Frame p "set-comp" id p := by
  have h : Frame p "set-comp" id { p with
      name := p.name
      composition := some { c with fps := c.fps, width := c.width, height := c.height } } :=
    .settings hc
  rwa [Project.withComposition_self hc] at h

theorem zoom_self : Frame p "zoom-tl" id p := by
  have h : Frame p "zoom-tl" id { p with
      appState := { p.appState with zoomLevel := p.appState.zoomLevel } } := .zoom
  exact h

end Replace

end Frame

/-! ## The commands -/

namespace Effect

variable {ctx : Context} {p : Project} {name : String} {o : Outcome}

/-- Every command keeps to its frame. -/
theorem frame (h : Effect ctx name o) (hp : ctx.project = some p) (hids : p.TextIds) :
    Frame p name o.entityId (o.revised.getD p) := by
  cases h with
  | createTrack hreads _ _ _ hq ho =>
      cases hreads.project.symm.trans hp
      obtain ⟨xs, -, -, rfl⟩ := Collection.append_eq_ok.mp hq
      rw [ho.revised]
      exact .replace_audios (by decide) hreads.composition _
  | @changeTrack _ _ _ _ _ u _ hreads _ _ hu ho =>
      cases hreads.project.symm.trans hp
      rw [ho.revised]
      obtain ⟨_, _, _, -, -, ⟨-, hchanged, -⟩ | ⟨_, ys, -, -, hchanged, hrevised⟩⟩ :=
        Collection.update_cases hu
      · rw [answer_of_unchanged hchanged]
        exact .audios_self (by decide) hreads.composition
      · rw [answer_of_changed hchanged, hrevised, Option.getD_some]
        exact .replace_audios (by decide) hreads.composition _
  | deleteTrack hreads _ _ hq ho =>
      cases hreads.project.symm.trans hp
      obtain ⟨xs, -, rfl⟩ := Collection.remove_eq_ok hq
      rw [ho.revised]
      exact .replace_audios (by decide) hreads.composition _
  | @createElement _ _ _ _ _ page e id _ _ _ hr hreads hpage _ _ hq ho =>
      cases hreads.project.symm.trans hp
      obtain ⟨before, after, hpages, rfl⟩ :=
        Project.append_selected hids hreads.composition hpage hq
      rw [ho.revised, ho.entityId]
      exact .newElement (e := { e with id := .text id }) (Elements.command_mem hr)
        hreads.composition hpage hpages
  | @changeElement _ _ _ aim _ _ _ u _ hreads _ _ hlocate _ hu ho =>
      cases hreads.project.symm.trans hp
      obtain ⟨haim, -, c, before, page, after, hc, hpages, hfirst, hholds, -, hreplace⟩ :=
        Project.located hids hlocate
      obtain ⟨_, x, _, -, hx, hcases⟩ := Collection.update_cases hu
      have hxid : x.id = aim := (hasId_iff haim).mp hx.hasId
      rw [ho.revised, ho.entityId]
      rcases hcases with ⟨hitem, hchanged, -⟩ | ⟨_, zs, hmerge, -, hchanged, hrevised⟩
      · rw [answer_of_unchanged hchanged, hitem, hxid]
        exact .elements_self hc hpages hfirst hholds
      · have hid : u.item.id = x.id :=
          Collection.merge_id hmerge fun d hd => Arguments.ne_of_mem_except hd (by decide)
        rw [answer_of_changed hchanged, hrevised, Option.getD_some, hreplace, hid, hxid]
        exact .setElement hc hpages hfirst hholds
  | deleteElement hreads _ hlocate hq ho =>
      cases hreads.project.symm.trans hp
      obtain ⟨haim, hid, c, before, page, after, hc, hpages, hfirst, hholds, -, hreplace⟩ :=
        Project.located hids hlocate
      obtain ⟨xs, -, rfl⟩ := Collection.remove_eq_ok hq
      rw [ho.revised, ho.entityId, hid, Option.getD_some, hreplace]
      split
      · rename_i hsame
        exact .deleteElement hc hpages hfirst hholds (.inr ⟨haim.same_iff.mp hsame, rfl⟩)
      · exact .deleteElement hc hpages hfirst hholds (.inl rfl)
  | createNote hreads _ _ hq ho =>
      cases hreads.project.symm.trans hp
      obtain ⟨xs, -, -, rfl⟩ := Collection.append_eq_ok.mp hq
      rw [ho.revised]
      exact .replace_notes (by decide) _
  | changeNote hreads _ hu hv ho =>
      cases hreads.project.symm.trans hp
      rw [ho.revised]
      obtain ⟨_, _, _, -, -, ⟨-, hchanged⟩ | ⟨_, -, -, hchanged, hrevised⟩⟩ :=
        Notes.stamp_cases hu hv
      · rw [answer_of_unchanged hchanged]
        exact .notes_self (by decide)
      · rw [answer_of_changed hchanged, hrevised, Option.getD_some]
        exact .notes (by decide)
  | deleteNote hreads _ _ hq ho =>
      cases hreads.project.symm.trans hp
      obtain ⟨xs, -, rfl⟩ := Collection.remove_eq_ok hq
      rw [ho.revised]
      exact .replace_notes (by decide) _
  | listNotes _ _ ho | listFiles _ ho | listCommands _ ho =>
      rw [ho.revised]
      exact .listing (by decide)
  | createPages hreads _ _ hq ho =>
      cases hreads.project.symm.trans hp
      obtain ⟨xs, -, rfl⟩ := Collection.insert_eq_ok.mp hq
      rw [ho.revised, Collection.replace_pages hreads.composition]
      exact .pages (by decide) (fun h => absurd h (by decide)) hreads.composition
  | @changePage _ _ _ _ _ newId _ _ hreads _ _ _ hu ho =>
      cases hreads.project.symm.trans hp
      rw [ho.revised]
      obtain ⟨_, _, _, -, -, ⟨-, hchanged, -⟩ | ⟨_, ys, -, -, hchanged, hrevised⟩⟩ :=
        Collection.update_cases hu
      · rw [answer_of_unchanged hchanged]
        exact .pages_self (by decide) hreads.composition
      · rw [answer_of_changed hchanged, hrevised]
        cases newId with
        | none => exact .replace_pages (by decide) hreads.composition ys p.appState.selectedPageId
        | some id =>
            simp only [Option.map_some, Option.getD_some, Pages.reselect_eq]
            exact .replace_pages (by decide) hreads.composition ys _
  | deletePages hreads _ _ _ hq ho =>
      cases hreads.project.symm.trans hp
      rw [ho.revised]
      obtain ⟨pages, -, ⟨rfl, -⟩ | ⟨page, -, rfl⟩⟩ := Pages.without_eq_ok hreads.composition hq
      · exact .replace_pages (by decide) hreads.composition pages p.appState.selectedPageId
      · rw [Collection.replace_pages hreads.composition]
        exact .pages (by decide) (fun h => absurd h (by decide)) hreads.composition
  | displayPage _ _ _ ho | displayComposition _ ho =>
      rw [ho.revised]
      exact .listing (by decide)
  | changeComposition hreads ho =>
      cases hreads.project.symm.trans hp
      rw [ho.revised]
      split
      · exact .settings_self hreads.composition
      · exact .settings hreads.composition
  | zoom hreads _ _ ho =>
      cases hreads.project.symm.trans hp
      rw [ho.revised]
      split
      · exact .zoom_self
      · exact .zoom

end Effect

theorem Outcome.projectAfter_some (o : Outcome) (p : Project) :
    o.projectAfter (some p) = some (o.revised.getD p) := by
  unfold projectAfter
  cases o.revised <;> rfl

namespace Session

/-- The frame law: a line that succeeds calls a command and makes of the project what the frame of
this command allows; no line ever changes the project's id, the playhead or the unknown entries of
the state. -/
theorem answer_frame {p : Project} (hids : p.TextIds) (ids : IdSource)
    (collaborators : Collaborators) (line : String) (j : Journal) :
    ∃ q, (answer ids collaborators (some p) line j).projectAfter (some p) = some q ∧
      ((answer ids collaborators (some p) line j).success = true →
        ∃ command args, Calls line command args ∧
          Frame p command.name (answer ids collaborators (some p) line j).entityId q) ∧
      q.id = p.id ∧ q.appState.currentTime = p.appState.currentTime ∧
      q.appState.extra = p.appState.extra := by
  refine ⟨_, Outcome.projectAfter_some _ p, ?_⟩
  rcases answer_cases ids collaborators (some p) line j with
    hrefuses | ⟨command, args, hcalls, -, heffect⟩
  · rw [hrefuses.revised, Option.getD_none]
    refine ⟨fun hsuccess => ?_, rfl, rfl, rfl⟩
    rw [hrefuses.success] at hsuccess
    cases hsuccess
  · have hframe := heffect.frame rfl hids
    exact ⟨fun _ => ⟨command, args, hcalls, hframe⟩, hframe.fixed⟩

/-- The frame law for the deletion of the selected element, which succeeds. -/
theorem selected_element_frame :
    (answer .counting {} (some (.small "note")) "/del-elem" {}).success = true ∧
      ∃ command args q, Calls "/del-elem" command args ∧
        Frame (.small "note") command.name
          (answer .counting {} (some (.small "note")) "/del-elem" {}).entityId q := by
  have hids : (Project.small "note").TextIds :=
    ⟨by decide, by decide, by decide, by decide⟩
  have hsuccess : (answer .counting {} (some (.small "note")) "/del-elem" {}).success = true := by
    decide +kernel
  obtain ⟨q, -, hframe, -⟩ := answer_frame hids .counting {} "/del-elem" {}
  obtain ⟨command, args, hcalls, hframe⟩ := hframe hsuccess
  exact ⟨hsuccess, command, args, q, hcalls, hframe⟩

end Session

end Montage
