/-
# A page always remains

A project that has a page has one after every command line (`Session.answer_keeps_page`),
whatever its ids and its selection.

    del-page             leaves out all pages with the ids of the doomed ones, and these may be
                         more than the doomed ones if ids repeat
    new-page             adds pages
    set-page             keeps the number of pages
    every other command  keeps the ids of the pages

The guard of the deletion counts the doomed pages by their places, so with repeated ids it
lets pass what would leave no page.  It is the selection that then stops the deletion: the
selected page is one of the pages, so it is gone with all of them, and no page is there to
be selected in its place (`Pages.without_ne_nil`).
-/
import Montage.Proofs.Reach

namespace Montage

variable {p q : Project} {c : Composition}

theorem map_updateFirst {α β : Type} {test : α → Bool} {f : α → α} {g : α → β}
    (h : ∀ x, g (f x) = g x) (xs : List α) : (updateFirst test f xs).map g = xs.map g := by
  induction xs with
  | nil => rfl
  | cons x xs ih =>
      unfold updateFirst
      split
      · rw [List.map_cons, List.map_cons, h]
      · rw [List.map_cons, List.map_cons, ih]

namespace Collection

/-- Items other than pages do not count. -/
theorem pageIds_replace {k : Collection} (hk : k ≠ .pages) (ys : List k.Item) :
    (k.replace p ys).pageIds = p.pageIds := by
  cases k with
  | pages => exact absurd rfl hk
  | notes => rfl
  | audios => cases hc : p.composition <;> simp [replace, Project.pageIds, Project.pages, hc]
  | elements pageId =>
      cases hc : p.composition with
      | none => simp [replace, Project.pageIds, Project.pages, hc]
      | some c =>
          simp only [replace, Project.pageIds, Project.pages, hc, Option.map_some]
          refine map_updateFirst ?_ c.pages
          exact fun _ => rfl

theorem pageIds_update {k : Collection} {id : Value} {changes : Changes} {fps : Number}
    {frameFields : List String} {move : Option Move} {mode : MoveMode} {u : Update k.Item}
    (hk : k ≠ .pages) (hu : k.update p id changes fps frameFields move mode = .ok u) :
    ((if u.changed then u.revised else none).getD p).pageIds = p.pageIds := by
  obtain ⟨_, _, _, -, -, ⟨-, hchanged, -⟩ | ⟨_, ys, -, -, hchanged, hrevised⟩⟩ := update_cases hu
  · rw [answer_of_unchanged hchanged]
  · rw [answer_of_changed hchanged, hrevised, Option.getD_some]
    exact pageIds_replace hk ys

theorem pages_replace_pages (hc : p.composition = some c) (ys : List Page) :
    (pages.replace p ys).pages = ys := by
  rw [replace_pages hc]
  rfl

/-- An update of a page keeps the number of pages. -/
theorem length_pages_update {id : Value} {changes : Changes} {fps : Number}
    {frameFields : List String} {move : Option Move} {mode : MoveMode} {u : Update Page}
    (hu : pages.update p id changes fps frameFields move mode = .ok u) :
    ((if u.changed then u.revised else none).getD p).pages.length = p.pages.length := by
  obtain ⟨before, x, after, hxs, -, ⟨-, hchanged, -⟩ | ⟨_, ys, -, hperm, hchanged, hrevised⟩⟩ :=
    update_cases hu
  · rw [answer_of_unchanged hchanged]
  obtain ⟨c, hc, hpages⟩ := items_pages.mp hxs
  rw [answer_of_changed hchanged, hrevised, Option.getD_some, pages_replace_pages hc,
    Project.pages_eq hc, hpages, hperm.length_eq, List.length_append, List.length_append,
    List.length_cons, List.length_cons]

end Collection

namespace Pages

/-- A deletion that leaves no page does not come to an end. -/
theorem without_ne_nil {place : Nat} {ids : List Value} (hc : p.composition = some c)
    (hpages : p.pages ≠ []) (h : without p place ids = .ok q) : q.pages ≠ [] := by
  obtain ⟨pages, rfl, ⟨rfl, hkept⟩ | ⟨page, hpage, rfl⟩⟩ := without_eq_ok hc h
  · -- the selected page is one of the pages, and it was kept
    obtain ⟨page, hselected⟩ := Project.selectedPage?_isSome hpages
    have hmem : page ∈ c.pages := Project.pages_eq hc ▸ Project.selectedPage?_mem hselected
    rw [Collection.pages_replace_pages hc]
    exact List.ne_nil_of_mem (List.mem_filter.mpr ⟨hmem, by simp [hkept page hselected]⟩)
  · show (Collection.pages.replace p _).pages ≠ []
    rw [Collection.pages_replace_pages hc]
    exact List.ne_nil_of_mem hpage

/-- Pages are added, and then one is selected. -/
theorem length_le_insert {i : Int} {pages : List Page} {id : Value}
    (h : Collection.pages.insert p i pages = .ok q) :
    p.pages.length ≤ (withSelected q id).pages.length := by
  obtain ⟨xs, hxs, rfl⟩ := Collection.insert_eq_ok.mp h
  obtain ⟨c, hc, rfl⟩ := Collection.items_pages.mp hxs
  show p.pages.length ≤ (Collection.pages.replace p _).pages.length
  rw [Collection.pages_replace_pages hc, Project.pages_eq hc]
  simp only [List.length_append, List.length_take, List.length_drop]
  omega

/-- That the selection follows a page to its new id does not count. -/
theorem length_change {oldId : Value} {newId : Option String} {changes : Changes} {fps : Number}
    {frameFields : List String} {move : Option Move} {mode : MoveMode} {u : Update Page}
    {followed : Option Project}
    (hfollowed : followed = match newId with
      | some id => u.revised.map (reselect oldId id)
      | none => u.revised)
    (hu : Collection.pages.update p oldId changes fps frameFields move mode = .ok u) :
    ((if u.changed then followed else none).getD p).pages.length = p.pages.length := by
  rw [← Collection.length_pages_update hu, hfollowed]
  cases newId with
  | none => rfl
  | some id =>
      cases u.changed with
      | false => rfl
      | true =>
          cases u.revised with
          | none => rfl
          | some r =>
              show (reselect oldId id r).pages.length = r.pages.length
              rw [reselect_eq]
              rfl

end Pages

/-! ## Commands -/

namespace Effect

variable {ctx : Context} {name : String} {o : Outcome}

/-- Only the commands on pages change the ids of the pages. -/
theorem pageIds_cases (h : Effect ctx name o) (hp : ctx.project = some p) :
    (o.revised.getD p).pageIds = p.pageIds ∨ name ∈ ["new-page", "set-page", "del-page"] := by
  cases h with
  | createPages | changePage | deletePages => exact .inr (by decide)
  | createTrack hreads _ _ _ hq ho =>
      cases hreads.project.symm.trans hp
      obtain ⟨xs, -, -, rfl⟩ := Collection.append_eq_ok.mp hq
      rw [ho.revised]
      exact .inl (Collection.pageIds_replace (k := .audios) nofun _)
  | changeTrack hreads _ _ hu ho =>
      cases hreads.project.symm.trans hp
      rw [ho.revised]
      exact .inl (Collection.pageIds_update (k := .audios) nofun hu)
  | deleteTrack hreads _ _ hq ho =>
      cases hreads.project.symm.trans hp
      obtain ⟨xs, -, rfl⟩ := Collection.remove_eq_ok hq
      rw [ho.revised]
      exact .inl (Collection.pageIds_replace (k := .audios) nofun _)
  | createElement _ hreads _ _ _ hq ho =>
      cases hreads.project.symm.trans hp
      obtain ⟨xs, -, -, rfl⟩ := Collection.append_eq_ok.mp hq
      rw [ho.revised]
      exact .inl (Collection.pageIds_replace (k := .elements _) nofun _)
  | changeElement hreads _ _ _ _ hu ho =>
      cases hreads.project.symm.trans hp
      rw [ho.revised]
      exact .inl (Collection.pageIds_update (k := .elements _) nofun hu)
  | deleteElement hreads _ _ hq ho =>
      cases hreads.project.symm.trans hp
      obtain ⟨xs, -, rfl⟩ := Collection.remove_eq_ok hq
      rw [ho.revised]
      refine .inl ?_
      -- the selection does not count
      split
      all_goals exact Collection.pageIds_replace (k := .elements _) nofun _
  | createNote hreads _ _ hq ho =>
      cases hreads.project.symm.trans hp
      obtain ⟨xs, -, -, rfl⟩ := Collection.append_eq_ok.mp hq
      rw [ho.revised]
      exact .inl rfl
  | changeNote hreads _ hu hv ho =>
      cases hreads.project.symm.trans hp
      rw [ho.revised]
      obtain ⟨_, _, _, -, -, ⟨-, hchanged⟩ | ⟨_, -, -, hchanged, hrevised⟩⟩ :=
        Notes.stamp_cases hu hv
      · rw [answer_of_unchanged hchanged]
        exact .inl rfl
      · rw [answer_of_changed hchanged, hrevised]
        exact .inl rfl
  | deleteNote hreads _ _ hq ho =>
      cases hreads.project.symm.trans hp
      obtain ⟨xs, -, rfl⟩ := Collection.remove_eq_ok hq
      rw [ho.revised]
      exact .inl rfl
  | changeComposition hreads ho =>
      cases hreads.project.symm.trans hp
      rw [ho.revised]
      split
      · exact .inl rfl
      · rw [Project.pageIds, Project.pageIds, Project.pages_eq hreads.composition]
        exact .inl rfl
  | zoom hreads _ _ ho =>
      cases hreads.project.symm.trans hp
      rw [ho.revised]
      split
      all_goals exact .inl rfl
  | listNotes _ _ ho | listFiles _ ho | listCommands _ ho | displayPage _ _ _ ho
  | displayComposition _ ho =>
      rw [ho.revised]
      exact .inl rfl

/-- Only a deletion of pages makes them fewer. -/
theorem pages_cases (h : Effect ctx name o) (hp : ctx.project = some p) :
    p.pages.length ≤ (o.revised.getD p).pages.length ∨
      ∃ c place ids, p.composition = some c ∧
        Pages.without p place ids = .ok (o.revised.getD p) := by
  rcases h.pageIds_cases hp with hsame | hname
  · have hlength := congrArg List.length hsame
    rw [Project.pageIds, Project.pageIds, List.length_map, List.length_map] at hlength
    exact .inl (Nat.le_of_eq hlength.symm)
  cases h with
  | deletePages hreads _ _ _ hq ho =>
      cases hreads.project.symm.trans hp
      rw [ho.revised]
      exact .inr ⟨_, _, _, hreads.composition, hq⟩
  | createPages hreads _ _ hq ho =>
      cases hreads.project.symm.trans hp
      rw [ho.revised]
      exact .inl (Pages.length_le_insert hq)
  | changePage hreads _ _ _ hu ho =>
      cases hreads.project.symm.trans hp
      rw [ho.revised]
      exact .inl (Nat.le_of_eq (Pages.length_change rfl hu).symm)
  | createElement hr => exact absurd hname (Elements.command_not_mem hr (by decide))
  | _ => exact absurd hname (by decide)

/-- A command that comes to an end leaves a page. -/
theorem pages_ne_nil (h : Effect ctx name o) (hp : ctx.project = some p) (hpages : p.pages ≠ []) :
    (o.revised.getD p).pages ≠ [] := by
  rcases h.pages_cases hp with hlength | ⟨c, place, ids, hc, hq⟩
  · rw [← List.length_pos_iff] at hpages ⊢
    exact Nat.lt_of_lt_of_le hpages hlength
  · exact Pages.without_ne_nil hc hpages hq

end Effect

/-! ## Lines -/

theorem Leads.pages_ne_nil (h : Leads p q) (hpages : p.pages ≠ []) : q.pages ≠ [] := by
  rcases h.cases with rfl | ⟨ctx, name, o, hctx, heffect, rfl⟩
  · exact hpages
  · exact heffect.pages_ne_nil hctx hpages

theorem Reaches.pages_ne_nil (h : Reaches p q) (hpages : p.pages ≠ []) : q.pages ≠ [] := by
  induction h with
  | refl => exact hpages
  | tail _ hleads ih => exact hleads.pages_ne_nil ih

namespace Session

/-- Whatever a line does to a project with a page, the project after it has a page; and so it is
after each of a sequence of lines.  Ids may repeat, and the selection may name anything. -/
theorem answer_keeps_page {p : Project} (hpages : p.pages ≠ []) :
    (∀ ids collaborators line j, ∃ q,
      (answer ids collaborators (some p) line j).projectAfter (some p) = some q ∧ q.pages ≠ []) ∧
    ∀ q, Reaches p q → q.pages ≠ [] := by
  refine ⟨fun ids collaborators line j => ?_, fun q h => h.pages_ne_nil hpages⟩
  have hafter := Outcome.projectAfter_some (answer ids collaborators (some p) line j) p
  exact ⟨_, hafter, Leads.pages_ne_nil ⟨ids, collaborators, line, j, hafter⟩ hpages⟩

/-- The page of a small project, twice. -/
def twins : Project :=
  { Project.small "note" with
    composition := some { pages := (Project.small "note").pages ++ (Project.small "note").pages } }

/-- The deletion of one of the twins passes the guard, and would take the other along. -/
theorem twins_keep_page :
    (∃ command, Calls "/del-page --yes" command ["--yes"] ∧ command.name = "del-page") ∧
      (answer .counting {} (some twins) "/del-page --yes" {}).success = false ∧
      ∃ q, (answer .counting {} (some twins) "/del-page --yes" {}).projectAfter (some twins) =
        some q ∧ q.pages ≠ [] := by
  have hpages : twins.pages ≠ [] := nofun
  have hcalls : Calls "/del-page --yes" Builtin.pages[2] ["--yes"] :=
    ⟨"del-page", by decide +kernel, rfl⟩
  exact ⟨⟨_, hcalls, rfl⟩, by decide +kernel,
    (answer_keeps_page hpages).1 .counting {} "/del-page --yes" {}⟩

end Session

end Montage
