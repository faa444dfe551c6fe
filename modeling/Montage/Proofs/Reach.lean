/-
# What can be reached

Every built-in command keeps a project sound (`Effect.sound`), so every line does,
and so does every finite sequence of lines, each with its own draws and
collaborators.  A new project is sound, and a project from a document is as soon
as it is well formed.
-/
import Mathlib.Logic.Relation
import Montage.Proofs.Options
import Montage.Proofs.WellFormed

namespace Montage

variable {ctx : Context} {p q : Project} {c : Composition} {args : Arguments}

/-! ## Audio tracks -/

namespace Tracks

theorem create_sound (hs : p.Sound) {tokens : List String} {fps : Number} {id src : String}
    {rate : Int} {a : Audio} (hargs : createGrammar.parse tokens fps = .ok args)
    (ha : Changes.assign (blank id src rate) (args.except ["src"]) = .ok a)
    (hq : Collection.audios.append p a = .ok q) : q.Sound := by
  obtain ⟨xs, hxs, hnew, rfl⟩ := Collection.append_eq_ok.mp hq
  obtain ⟨c, hc, rfl⟩ := Collection.items_audios.mp hxs
  -- no option of the command sets the id
  have hid : a.id = .text id :=
    Changes.assign_keeps Audio.setOnlyBy_id ha fun d hd hname => by
      have hfield := Grammar.mem_fields_of_parse hargs d (Arguments.mem_of_mem_except hd)
      rw [List.mem_singleton.mp hname] at hfield
      exact absurd hfield (by decide)
  rw [Collection.replace_audios hc]
  exact hs.withAudios hc ((hs.audios hc).add ⟨id, hid⟩ hnew)

theorem change_sound (hs : p.Sound) (hc : p.composition = some c) {id : Value} {fps : Number}
    {frameFields : List String} {move : Option Move} {mode : MoveMode} {u : Update Audio}
    (hu : Collection.audios.update p id (args.except ["id", "before", "after"]) fps frameFields
      move mode = .ok u) :
    Project.Sound ((if u.changed then u.revised else none).getD p) := by
  rcases Collection.update_ids hu (fun d hd => Arguments.ne_of_mem_except hd (by decide))
      (Collection.items_audios.mpr ⟨c, hc, rfl⟩) with
    hchanged | ⟨audios, hperm, hchanged, hrevised⟩
  · rwa [answer_of_unchanged hchanged]
  · rw [answer_of_changed hchanged, hrevised, Option.getD_some, Collection.replace_audios hc]
    exact hs.withAudios hc ((hs.audios hc).perm hperm)

theorem delete_sound (hs : p.Sound) {ids : List Value}
    (hq : Collection.audios.remove p ids = .ok q) : q.Sound := by
  obtain ⟨xs, hxs, rfl⟩ := Collection.remove_eq_ok hq
  obtain ⟨c, hc, rfl⟩ := Collection.items_audios.mp hxs
  rw [Collection.replace_audios hc]
  exact hs.withAudios hc ((hs.audios hc).filter _)

end Tracks

/-! ## Elements -/

namespace Elements

theorem create_sound (hs : p.Sound) (hc : p.composition = some c) {page : Page} {e : Element}
    {source : IdSource} {word id : String} {n k : Nat} (hpage : p.selectedPage? = some page)
    (hid : Yields (drawId source word c.elementIds) n id k)
    (hq : (Collection.elements page.id).append p { e with id := .text id } = .ok q) :
    q.Sound := by
  obtain ⟨before, after, hpages, rfl⟩ := Project.append_selected hs.textIds hc hpage hq
  exact hs.addElement hc hpages (drawId_fresh hid)

theorem change_sound (hs : p.Sound) {aim pageId : Value} {e : Element} {fps : Number}
    {frameFields : List String} {move : Option Move} {mode : MoveMode} {u : Update Element}
    (he : locate p aim = .ok (pageId, e))
    (hu : (Collection.elements pageId).update p aim
      (args.except ["target", "id", "before", "after"]) fps frameFields move mode = .ok u) :
    Project.Sound ((if u.changed then u.revised else none).getD p) := by
  obtain ⟨-, -, c, before, page, after, hc, hpages, -, -, hitems, hreplace⟩ :=
    Project.located hs.textIds he
  rcases Collection.update_ids hu (fun d hd => Arguments.ne_of_mem_except hd (by decide))
      hitems with hchanged | ⟨es, hperm, hchanged, hrevised⟩
  · rwa [answer_of_unchanged hchanged]
  · rw [answer_of_changed hchanged, hrevised, Option.getD_some, hreplace]
    exact hs.changeElements hc hpages hperm

theorem delete_sound (hs : p.Sound) {aim pageId : Value} {e : Element}
    (he : locate p aim = .ok (pageId, e))
    (hq : (Collection.elements pageId).remove p [aim] = .ok q) :
    Project.Sound
      (if p.appState.selectedElementId.same aim then withoutSelection q else q) := by
  obtain ⟨haim, -, c, before, page, after, hc, hpages, -, -, hitems, hreplace⟩ :=
    Project.located hs.textIds he
  obtain ⟨xs, hxs, rfl⟩ := Collection.remove_eq_ok hq
  obtain rfl := Except.ok.inj (hitems.symm.trans hxs)
  have hgone : ∀ d : Element, (!([aim].any (Entity.hasId d))) = false → d.id = aim := by
    intro d hd
    have hid : Entity.id d = aim := by simpa [hasId_iff haim] using hd
    exact hid
  rw [hreplace]
  split
  · exact hs.removeElement hc hpages (.inr rfl) hgone
  · rename_i hother
    have hne : p.appState.selectedElementId ≠ aim := by
      intro heq
      exact hother (haim.same_iff.mpr heq)
    exact hs.removeElement hc hpages (.inl ⟨rfl, hne⟩) hgone

end Elements

/-! ## Notes -/

namespace Notes

theorem create_sound (hs : p.Sound) {note : Note} (hid : note.id.IsText)
    (hq : Collection.notes.append p note = .ok q) : q.Sound := by
  obtain ⟨xs, hxs, hnew, rfl⟩ := Collection.append_eq_ok.mp hq
  obtain rfl := Collection.items_notes.mp hxs
  exact hs.withNotes (hs.noteIds.add hid hnew)

theorem change_sound (hs : p.Sound) {now : String} {id : Value} {fps : Number}
    {frameFields : List String} {mode : MoveMode} {u v : Update Note}
    (hu : Collection.notes.update p id (args.except ["id"]) fps frameFields none mode = .ok u)
    (hv : stamp now u = .ok v) :
    Project.Sound ((if v.changed then v.revised else none).getD p) := by
  obtain ⟨before, x, after, hnotes, -, ⟨-, hchanged⟩ | ⟨_, hmerge, -, hchanged, hrevised⟩⟩ :=
    stamp_cases hu hv
  · rwa [answer_of_unchanged hchanged]
  · have hid : v.item.id = x.id :=
      Collection.merge_id (c := .notes) hmerge fun d hd =>
        Arguments.ne_of_mem_except hd (by decide)
    have hids := hs.noteIds
    simp only [Project.noteIds, hnotes, List.map_append, List.map_cons] at hids
    rw [answer_of_changed hchanged, hrevised]
    refine hs.withNotes ?_
    simpa only [List.map_append, List.map_cons, hid] using hids

theorem delete_sound (hs : p.Sound) {ids : List Value}
    (hq : Collection.notes.remove p ids = .ok q) : q.Sound := by
  obtain ⟨xs, hxs, rfl⟩ := Collection.remove_eq_ok hq
  obtain rfl := Collection.items_notes.mp hxs
  exact hs.withNotes (hs.noteIds.filter _)

end Notes

/-! ## Pages -/

namespace Pages

theorem create_sound (hs : p.Sound) (hc : p.composition = some c) {source : IdSource}
    {original : Option Page} {m n k : Nat} {page : Page} {pages : List Page} {i : Int}
    (hpages : Yields (draft source p c original m) n (page :: pages) k)
    (hq : Collection.pages.insert p i (page :: pages) = .ok q) :
    (withSelected q page.id).Sound := by
  obtain ⟨xs, hxs, rfl⟩ := Collection.insert_eq_ok.mp hq
  obtain ⟨c', hc', rfl⟩ := Collection.items_pages.mp hxs
  cases hc.symm.trans hc'
  obtain ⟨hids, helements⟩ := draft_fresh hpages
  rw [Collection.replace_pages hc]
  exact hs.insertPages hc hids helements _

theorem change_sound (hs : p.Sound) (hc : p.composition = some c) {tokens : List String}
    {candidates : List (Option String)} {page : Page} {newId : Option String}
    {fps fps' : Number} {frameFields : List String} {move : Option Move} {mode : MoveMode}
    {u : Update Page} {followed : Option Project}
    (hfollowed : followed = match newId with
      | some id => u.revised.map (reselect page.id id)
      | none => u.revised)
    (hargs : changeGrammar.parse tokens fps' = .ok args)
    (hpage : target p candidates = .ok page) (hnewId : newId? p page args = .ok newId)
    (hu : Collection.pages.update p page.id
      (args.except ["target", "id", "new_id", "before", "after"] ++
        (newId.map fun id => ("id", Value.text id)).toList) fps frameFields move mode = .ok u) :
    Project.Sound ((if u.changed then followed else none).getD p) := by
  obtain ⟨before, after, hpages, hchanged | ⟨pages, hperm, helements, hid, hchanged, hrevised⟩⟩ :=
    update_cases hs.textIds hc hargs hpage hnewId hu
  · rwa [answer_of_unchanged hchanged]
  rw [answer_of_changed hchanged, hfollowed, hrevised]
  cases newId with
  | none =>
      rw [Option.getD_some, Collection.replace_pages hc]
      exact hs.changePage hc hpages hperm helements (.inl hid) (·.trans hid.symm) fun _ => rfl
  | some id =>
      have hid : u.item.id = .text id := hid
      have htext : page.id.IsText := hs.textIds.page hc (by rw [hpages]; simp)
      have hnew : u.item.id ∉ c.pages.map Entity.id := by
        rw [hid, ← Project.pages_eq hc]
        exact not_mem_ids (Value.isText_text id) (newId?_eq_some hnewId).2
      simp only [Option.map_some, Option.getD_some, reselect_eq, Collection.replace_pages hc]
      refine hs.changePage hc hpages hperm helements
        (.inr ⟨hid ▸ Value.isText_text id, hnew⟩) ?_ ?_
      · intro hselected
        rw [if_pos (htext.same_iff.mpr hselected), hid]
      · intro hother
        rw [if_neg (mt htext.same_iff.mp hother)]

theorem delete_sound (hs : p.Sound) (hc : p.composition = some c) {place : Nat}
    {ids : List Value} (hq : without p place ids = .ok q) : q.Sound := by
  obtain ⟨pages, rfl, ⟨rfl, hkept⟩ | ⟨page, hpage, rfl⟩⟩ := without_eq_ok hc hq
  · -- the selected page is none of the deleted ones
    obtain ⟨w, hw, hselected, hid, helement⟩ := hs.selectedPage? hc
    have hstays : w ∈ c.pages.filter fun page => !ids.any (Entity.hasId page) := by
      rw [List.mem_filter, hkept w hselected]
      exact ⟨hw, rfl⟩
    rw [Collection.replace_pages hc]
    exact hs.removePages hc List.filter_sublist ⟨w, hstays, hid, helement⟩
  · rw [Collection.replace_pages hc]
    exact hs.removePages hc List.filter_sublist ⟨page, hpage, rfl, .inl rfl⟩

end Pages

/-! ## All commands -/

/-- A command that comes to an end keeps a project sound. -/
theorem Effect.sound {name : String} {o : Outcome} (h : Effect ctx name o)
    (hp : ctx.project = some p) (hs : p.Sound) : (o.revised.getD p).Sound := by
  cases h with
  | createTrack hreads _ _ ha hq ho =>
      cases hreads.project.symm.trans hp
      rw [ho.revised]
      exact Tracks.create_sound hs hreads.args ha hq
  | changeTrack hreads _ _ hu ho =>
      cases hreads.project.symm.trans hp
      rw [ho.revised]
      exact Tracks.change_sound hs hreads.composition hu
  | deleteTrack hreads _ _ hq ho =>
      cases hreads.project.symm.trans hp
      rw [ho.revised]
      exact Tracks.delete_sound hs hq
  | createElement _ hreads hpage _ hid hq ho =>
      cases hreads.project.symm.trans hp
      rw [ho.revised]
      exact Elements.create_sound hs hreads.composition hpage hid hq
  | changeElement hreads _ _ he _ hu ho =>
      cases hreads.project.symm.trans hp
      rw [ho.revised]
      exact Elements.change_sound hs he hu
  | deleteElement hreads _ he hq ho =>
      cases hreads.project.symm.trans hp
      rw [ho.revised]
      exact Elements.delete_sound hs he hq
  | createNote hreads _ _ hq ho =>
      cases hreads.project.symm.trans hp
      rw [ho.revised]
      exact Notes.create_sound hs (Value.isText_text _) hq
  | changeNote hreads _ hu hv ho =>
      cases hreads.project.symm.trans hp
      rw [ho.revised]
      exact Notes.change_sound hs hu hv
  | deleteNote hreads _ _ hq ho =>
      cases hreads.project.symm.trans hp
      rw [ho.revised]
      exact Notes.delete_sound hs hq
  | createPages hreads _ hpages hq ho =>
      cases hreads.project.symm.trans hp
      rw [ho.revised]
      exact Pages.create_sound hs hreads.composition hpages hq
  | changePage hreads hpage _ hnewId hu ho =>
      cases hreads.project.symm.trans hp
      rw [ho.revised]
      exact Pages.change_sound hs hreads.composition rfl hreads.args hpage hnewId hu
  | deletePages hreads _ _ _ hq ho =>
      cases hreads.project.symm.trans hp
      rw [ho.revised]
      exact Pages.delete_sound hs hreads.composition hq
  | changeComposition hreads ho =>
      cases hreads.project.symm.trans hp
      rw [ho.revised]
      split
      · exact hs
      · exact hs.withSettings hreads.composition
  | zoom hreads _ _ ho =>
      cases hreads.project.symm.trans hp
      rw [ho.revised]
      split
      · exact hs
      · exact hs.withZoom
  | listNotes _ _ ho | listFiles _ ho | listCommands _ ho | displayPage _ _ _ ho
  | displayComposition _ ho =>
      rw [ho.revised]
      exact hs

/-! ## Lines and sequences of lines -/

/-- A command line leads from `p` to `q`, with some draws, collaborators and journal. -/
def Leads (p q : Project) : Prop :=
  ∃ ids collaborators line j,
    (Session.answer ids collaborators (some p) line j).projectAfter (some p) = some q

/-- Some command lines, one after the other, lead from `p` to `q`. -/
def Reaches : Project → Project → Prop := Relation.ReflTransGen Leads

/-- A line leaves the project as it is, or has the effect of a command. -/
theorem Leads.cases {p q : Project} (h : Leads p q) :
    q = p ∨ ∃ ctx name o, ctx.project = some p ∧ Effect ctx name o ∧ q = o.revised.getD p := by
  obtain ⟨ids, collaborators, line, j, h⟩ := h
  rw [Outcome.projectAfter_some, Option.some.injEq] at h
  subst h
  rcases Session.answer_cases ids collaborators (some p) line j with
    hrefuses | ⟨command, args, -, -, heffect⟩
  · rw [hrefuses.revised, Option.getD_none]
    exact .inl rfl
  · exact .inr ⟨_, _, _, rfl, heffect, rfl⟩

theorem Leads.sound {p q : Project} (h : Leads p q) (hs : p.Sound) : q.Sound := by
  rcases h.cases with rfl | ⟨ctx, name, o, hctx, heffect, rfl⟩
  · exact hs
  · exact heffect.sound hctx hs

theorem Reaches.sound {p q : Project} (h : Reaches p q) (hs : p.Sound) : q.Sound := by
  induction h with
  | refl => exact hs
  | tail _ hstep ih => exact hstep.sound ih

theorem newProject_sound {ids : IdSource} {name : Value} {fps width height : Int} {n k : Nat}
    {p : Project} (h : Yields (newProject ids name fps width height) n p k) : p.Sound := by
  unfold newProject at h
  simp only [yields_bind, yields_pure] at h
  obtain ⟨page, _, hpage, id, _, -, rfl, -⟩ := h
  obtain ⟨hid, hnone⟩ := Pages.blankPage_eq hpage
  refine ⟨⟨_, rfl⟩, hid.distinct, .nil, .nil, ?_, page, List.mem_singleton_self page, rfl, .inl rfl⟩
  have helements : Distinct (page.elements.map (·.id) ++ []) := by
    rw [hnone]
    exact .nil
  exact helements

/-- A well-formed project stays well formed through every command line, so every project that
lines reach from a new project, or from a document that gives a well-formed one, is well formed. -/
theorem wellFormed_of_reaches :
    (∀ p q : Project, p.TextIds → p.WellFormed → Leads p q → q.TextIds ∧ q.WellFormed) ∧
    (∀ (ids : IdSource) (name : Value) (fps width height : Int) (n k : Nat) (p q : Project),
      Yields (newProject ids name fps width height) n p k → Reaches p q → q.WellFormed) ∧
    (∀ (v : Value) (p q : Project),
      Document.project v = .ok p → p.WellFormed → Reaches p q → q.WellFormed) := by
  refine ⟨?line, ?fresh, ?document⟩
  case line =>
    intro p q htexts hp h
    exact Project.sound_iff.mp (h.sound (Project.sound_iff.mpr ⟨htexts, hp⟩))
  case fresh =>
    intro ids name fps width height n k p q hnew h
    exact (Project.sound_iff.mp (h.sound (newProject_sound hnew))).2
  case document =>
    intro v p q hread hp h
    have hs := Project.sound_iff.mpr ⟨Document.project_textIds hread, hp⟩
    exact (Project.sound_iff.mp (h.sound hs)).2

/-- Two pages more, and the project is still well formed. -/
theorem small_stays_wellFormed :
    (Project.small "note").WellFormed ∧
      ∃ q, Leads (.small "note") q ∧ q.pages.length = 3 ∧ q.WellFormed := by
  have htexts : (Project.small "note").TextIds :=
    ⟨by decide, by decide, by decide, by decide⟩
  have hwf : (Project.small "note").WellFormed :=
    ⟨rfl, List.nodup_singleton _, List.nodup_nil, List.nodup_singleton _,
      List.nodup_singleton _, _, List.mem_singleton_self _, rfl,
      .inr ⟨_, List.mem_singleton_self _, rfl⟩⟩
  let o := Session.answer .counting {} (some (.small "note")) "/new-page -n 2" {}
  have hleads : Leads (.small "note") (o.revised.getD (.small "note")) :=
    ⟨_, _, _, _, o.projectAfter_some _⟩
  have hlength : (o.revised.getD (.small "note")).pages.length = 3 := by decide +kernel
  exact ⟨hwf, _, hleads, hlength, (wellFormed_of_reaches.1 _ _ htexts hwf hleads).2⟩

end Montage
