/-
# Which page is selected after a page was changed

`/set-page` merges changes into a page, may give it a new id, and may move it.  What that
does to the page that is selected depends on how it is selected:

    by its id              the page with the selected id, which follows to a new id
    by falling back        no page has the selected id: the first page

A page that is selected by its id stays selected, whatever the line does to it or to
others.  A page that is selected by falling back does not: afterwards it is the page that
the line gives just the selected id, or else the page that then stands first.  So it is the
same page exactly if the changed page was the first one before and is selected after, or
is neither.

Both halves rest on one description of the line (`Pages.Turns`): the changed page stands
among the others, which are as they were and in their order, at some place.
-/
import Montage.Proofs.DeletedPages
import Montage.Proofs.Place

namespace Montage

/-! ## What the line makes of the pages -/

namespace Pages

/-- How a line with these arguments turns the project `p` into `q`: the page it is about stands
between the pages `before` and `after`; with its changes it is `new`, and it stands at the place `k`
among the others.  A selection that names it follows to its id. -/
structure Turns (p : Project) (args : Arguments) (before : List Page) (page : Page)
    (after : List Page) (new : Page) (k : Nat) (q : Project) : Prop where
  target : Pages.target p [args.nonempty? "id", args.nonempty? "target"] = .ok page
  merged : ∃ newId diff, newId? p page args = .ok newId ∧
    Changes.merge page (.int p.fps) ["duration"]
      (args.except ["target", "id", "new_id", "before", "after"] ++
        (newId.map fun id => ("id", Value.text id)).toList) = .ok (new, diff)
  pages : p.pages = before ++ page :: after
  place : k ≤ (before ++ after).length
  turned : q.pages = (before ++ after).insertIdx k new
  distinct : Distinct q.pageIds
  selection : q.appState = { p.appState with
    selectedPageId := if p.appState.selectedPageId.same page.id then new.id
      else p.appState.selectedPageId }

/-- Between the pages before and after a line `page` became `new`, and the others are as they were:
so `w` became `w'`. -/
inductive Becomes (page new : Page) : Page → Page → Prop
  | changed : Becomes page new page new
  | kept {w : Page} : w ≠ page → Becomes page new w w

variable {p q : Project} {c : Composition} {args : Arguments} {before after : List Page}
  {page new w w' : Page} {k : Nat}

/-- With the id it had, or with one that is new, the changed page can be told from the others. -/
theorem distinct_turned {newId : Option String} {pages : List Page}
    (hids : Distinct ((before ++ page :: after).map Entity.id))
    (hpages : p.pages = before ++ page :: after) (hnewId : newId? p page args = .ok newId)
    (hid : new.id = (newId.map Value.text).getD page.id)
    (hperm : pages.Perm (new :: (before ++ after))) : Distinct (pages.map Entity.id) := by
  have hothers := (hids.perm ((List.perm_middle (a := page)).symm.map Entity.id)).uncons
  obtain ⟨htext, hpage, hothers⟩ := hothers
  refine Distinct.perm ?_ (hperm.map Entity.id)
  rw [List.map_cons]
  show Distinct (new.id :: _)
  rw [hid]
  cases newId with
  | none => exact hothers.cons htext hpage
  | some id =>
      refine hothers.cons (Value.isText_text id) fun hmem => ?_
      have hfree := not_mem_ids (Value.isText_text id) (newId?_eq_some hnewId).2
      rw [hpages, List.map_append, List.map_cons] at hfree
      rw [Option.map_some, Option.getD_some, List.map_append] at hmem
      exact hfree (by simp only [List.mem_append, List.mem_cons] at hmem ⊢; tauto)

/-- The selection of a page that keeps its id. -/
theorem selection_kept {state : AppState} {id : Value} (hid : id.IsText) : state = { state with
    selectedPageId := if state.selectedPageId.same id then id else state.selectedPageId } := by
  split
  · rename_i hsame
    rw [← hid.same_iff.mp hsame]
  · rfl

/-- The pages and the selection after an update of a page. -/
theorem turns_of_update {newId : Option String} {move : Option Move} {mode : MoveMode}
    {u : Update Page} {followed : Option Project}
    (hfollowed : followed = match newId with
      | some id => u.revised.map (reselect page.id id)
      | none => u.revised)
    (hids : Distinct p.pageIds) (hc : p.composition = some c)
    (htarget : target p [args.nonempty? "id", args.nonempty? "target"] = .ok page)
    (hnewId : newId? p page args = .ok newId)
    (hu : Collection.pages.update p page.id
      (args.except ["target", "id", "new_id", "before", "after"] ++
        (newId.map fun id => ("id", Value.text id)).toList) (.int p.fps) ["duration"] move mode =
          .ok u) :
    ∃ before after k, Turns p args before page after u.item k
      ((if u.changed then followed else none).getD p) := by
  obtain ⟨before, x, after, diff, k, hxs, hfirst, hmerge, hle, hcases⟩ :=
    Collection.update_inserts hu
  obtain ⟨c', hc', hsplit⟩ := Collection.items_pages.mp hxs
  cases hc.symm.trans hc'
  obtain ⟨before', after', hsplit', hfirst'⟩ := Project.target_split hids.texts hc htarget
  obtain ⟨rfl, rfl, rfl⟩ := hfirst.unique hfirst' (hsplit.symm.trans hsplit')
  have hpages : p.pages = before ++ x :: after := (Project.pages_eq hc).trans hsplit
  have hid : (Entity.id x).IsText := hids.texts _ (List.mem_map_of_mem (by rw [hpages]; simp))
  suffices hturned : let q := (if u.changed then followed else none).getD p
      q.pages = (before ++ after).insertIdx k u.item ∧ Distinct q.pageIds ∧
        q.appState = { p.appState with
          selectedPageId := if p.appState.selectedPageId.same x.id then u.item.id
            else p.appState.selectedPageId } from
    ⟨before, after, k, htarget, ⟨newId, diff, hnewId, hmerge⟩, hpages, hle, hturned.1,
      hturned.2.1, hturned.2.2⟩
  rcases hcases with ⟨hitem, rfl, hchanged⟩ | ⟨hchanged, hrevised⟩
  · rw [answer_of_unchanged hchanged, hitem, insertIdx_length]
    exact ⟨hpages, hids, selection_kept hid⟩
  · have hnew := merge_newId hnewId hmerge
    have hdistinct := distinct_turned (hpages ▸ hids) hpages hnewId hnew
      (List.perm_insertIdx u.item _ hle)
    have hturned : (followed.getD p).pages = (before ++ after).insertIdx k u.item ∧
        (followed.getD p).appState = { p.appState with
          selectedPageId := if p.appState.selectedPageId.same x.id then u.item.id
            else p.appState.selectedPageId } := by
      rw [hfollowed, hrevised, Collection.replace_pages hc, hnew]
      cases newId with
      | none => exact ⟨rfl, selection_kept hid⟩
      | some id =>
          simp only [Option.map_some, Option.getD_some, reselect_eq]
          exact ⟨rfl, rfl⟩
    rw [answer_of_changed hchanged]
    refine ⟨hturned.1, ?_, hturned.2⟩
    rw [Project.pageIds, hturned.1]
    exact hdistinct

/-- The command that changes a page turns the project into the one that it answers. -/
theorem turns_of_effect {ctx : Context} {o : Outcome} (hids : Distinct p.pageIds)
    (hp : ctx.project = some p) (h : Effect ctx "set-page" o) :
    ∃ args before page after new k, changeGrammar.parse ctx.args (.int p.fps) = .ok args ∧
      Turns p args before page after new k (o.revised.getD p) := by
  generalize hname : "set-page" = name at h
  cases h with
  | changePage hreads htarget _ hnewId hu ho =>
      cases hreads.project.symm.trans hp
      obtain ⟨before, after, k, hturns⟩ :=
        turns_of_update rfl hids hreads.composition htarget hnewId hu
      refine ⟨_, before, _, after, _, k, ?_, ho.revised ▸ hturns⟩
      rw [← hreads.args, Context.parse_of_project hp]
  | createElement hr =>
      have hother : "set-page" ∉ ["new-text", "new-image", "new-video"] := by decide
      exact absurd (hname ▸ Elements.command_mem hr) hother
  | _ => exact absurd hname (by decide)

/-! ## The page that is selected -/

theorem becomes_page_iff : Becomes page new page w' ↔ w' = new := by
  constructor
  · rintro (_ | hne)
    · rfl
    · exact absurd rfl hne
  · rintro rfl
    exact .changed

theorem becomes_other_iff (hne : w ≠ page) : Becomes page new w w' ↔ w' = w := by
  constructor
  · rintro (_ | _)
    · exact absurd rfl hne
    · rfl
  · rintro rfl
    exact .kept hne

namespace Turns

variable (h : Turns p args before page after new k q)

include h

theorem mem_iff {x : Page} : x ∈ q.pages ↔ x = new ∨ x ∈ before ++ after := by
  rw [h.turned, List.mem_insertIdx h.place]

/-- A page that is selected by its id stays selected. -/
theorem becomes_of_mem (hids : Distinct p.pageIds) (hmem : p.appState.selectedPageId ∈ p.pageIds) :
    ∃ w w', p.selectedPage? = some w ∧ q.selectedPage? = some w' ∧ Becomes page new w w' := by
  obtain ⟨w, hw, hid⟩ := List.mem_map.mp hmem
  have hselected := Project.selectedPage?_of_id hids hw hid.symm
  have hselection := congrArg AppState.selectedPageId h.selection
  dsimp only at hselection
  rw [← hid] at hselection
  have htext : w.id.IsText := hids.texts _ (List.mem_map_of_mem hw)
  have hpage : page ∈ p.pages := by rw [h.pages]; simp
  by_cases hwp : w = page
  case pos =>
    subst hwp
    rw [if_pos (htext.same_iff.mpr rfl)] at hselection
    exact ⟨w, new, hselected,
      Project.selectedPage?_of_id h.distinct (h.mem_iff.mpr (.inl rfl)) hselection, .changed⟩
  case neg =>
    have hne : w.id.same page.id ≠ true := fun hsame =>
      hwp (List.inj_on_of_nodup_map hids.nodup hw hpage (htext.same_iff'.mp hsame))
    rw [if_neg hne] at hselection
    have hother : w ∈ before ++ after := by
      rw [h.pages] at hw
      simpa [hwp] using hw
    exact ⟨w, w, hselected,
      Project.selectedPage?_of_id h.distinct (h.mem_iff.mpr (.inr hother)) hselection, .kept hwp⟩

/-- No other page is the changed one. -/
theorem ne_new {x : Page} (hx : x ∈ before ++ after) : x ≠ new := by
  have hids := h.distinct
  rw [Project.pageIds, h.turned] at hids
  obtain ⟨-, hnew, -⟩ :=
    (hids.perm ((List.perm_insertIdx new _ h.place).symm.map Entity.id)).uncons
  rintro rfl
  exact hnew (List.mem_map_of_mem hx)

/-- The first page is the changed one if this was put first, or else the first one of the others. -/
theorem head?_eq : q.pages.head? = if k = 0 then some new else (before ++ after).head? := by
  rw [h.turned]
  cases k with
  | zero => rfl
  | succ k =>
      cases hothers : before ++ after with
      | nil =>
          have hplace := h.place
          rw [hothers] at hplace
          exact absurd hplace (Nat.not_succ_le_zero k)
      | cons x xs => rfl

section Fallback
variable (hids : Distinct p.pageIds) (hnot : p.appState.selectedPageId ∉ p.pageIds)

include hids hnot

theorem selection_of_not_mem : q.appState.selectedPageId = p.appState.selectedPageId := by
  have hid : page.id ∈ p.pageIds := List.mem_map_of_mem (by rw [h.pages]; simp)
  have hne : p.appState.selectedPageId.same page.id ≠ true := fun hsame =>
    hnot ((hids.texts _ hid).same_iff.mp hsame ▸ hid)
  rw [h.selection]
  exact if_neg hne

/-- If the changed page has the selected id now, it is selected; if not, the first page is. -/
theorem selectedPage?_after :
    (new.id = p.appState.selectedPageId → q.selectedPage? = some new) ∧
    (new.id ≠ p.appState.selectedPageId → q.selectedPage? = q.pages.head?) := by
  have hselection := h.selection_of_not_mem hids hnot
  constructor
  · intro hid
    exact Project.selectedPage?_of_id h.distinct (h.mem_iff.mpr (.inl rfl))
      (hselection.trans hid.symm)
  · intro hid
    refine Project.selectedPage?_of_not_mem h.distinct.texts fun hmem => ?_
    rw [hselection] at hmem
    obtain ⟨x, hx, hxid⟩ := List.mem_map.mp hmem
    rcases h.mem_iff.mp hx with rfl | hother
    · exact hid hxid
    · refine hnot (hxid ▸ List.mem_map_of_mem ?_)
      rw [h.pages]
      simp only [List.mem_append, List.mem_cons] at hother ⊢
      tauto

/-- A page that is selected by falling back stays selected exactly if it is the changed one and
selected again, or neither. -/
theorem becomes_of_not_mem : ∃ w w', p.selectedPage? = some w ∧ q.selectedPage? = some w' ∧
    (new.id = p.appState.selectedPageId → w' = new) ∧
    (new.id ≠ p.appState.selectedPageId → q.pages.head? = some w') ∧
    (Becomes page new w w' ↔ (before = [] ↔ k = 0 ∨ new.id = p.appState.selectedPageId)) := by
  obtain ⟨w, hw⟩ : ∃ w, p.selectedPage? = some w :=
    Project.selectedPage?_isSome (by rw [h.pages]; simp)
  obtain ⟨w', hw'⟩ : ∃ w', q.selectedPage? = some w' :=
    Project.selectedPage?_isSome (List.ne_nil_of_mem (h.mem_iff.mpr (.inl rfl)))
  obtain ⟨hgiven, hfirst⟩ := h.selectedPage?_after hids hnot
  have hgiven' (hid : new.id = p.appState.selectedPageId) : w' = new :=
    Option.some.inj (hw'.symm.trans (hgiven hid))
  have hfirst' (hid : new.id ≠ p.appState.selectedPageId) : q.pages.head? = some w' :=
    (hfirst hid).symm.trans hw'
  refine ⟨w, w', hw, hw', hgiven', hfirst', ?_⟩
  -- the page selected afterwards is the changed one, or the first one of the others
  have hcases : ((k = 0 ∨ new.id = p.appState.selectedPageId) ∧ w' = new) ∨
      (¬ (k = 0 ∨ new.id = p.appState.selectedPageId) ∧ (before ++ after).head? = some w') := by
    by_cases hid : new.id = p.appState.selectedPageId
    · exact .inl ⟨.inr hid, hgiven' hid⟩
    have hhead := hfirst' hid
    rw [h.head?_eq] at hhead
    split at hhead
    · rename_i hk
      exact .inl ⟨.inl hk, (Option.some.inj hhead).symm⟩
    · rename_i hk
      exact .inr ⟨not_or.mpr ⟨hk, hid⟩, hhead⟩
  rw [Project.selectedPage?_of_not_mem hids.texts hnot, h.pages] at hw
  cases before with
  | nil =>
      obtain rfl : page = w := Option.some.inj hw
      rw [becomes_page_iff, iff_true_left rfl]
      rcases hcases with ⟨hnew, rfl⟩ | ⟨hother, hhead⟩
      · exact iff_of_true rfl hnew
      · exact iff_of_false (h.ne_new (List.mem_of_head? hhead)) hother
  | cons b bs =>
      obtain rfl : b = w := Option.some.inj hw
      have hne : b ≠ page := by
        rintro rfl
        have hnodup := hids.nodup
        rw [Project.pageIds, h.pages] at hnodup
        simp at hnodup
      rw [becomes_other_iff hne, iff_false_left (List.cons_ne_nil _ _)]
      rcases hcases with ⟨hnew, rfl⟩ | ⟨hother, hhead⟩
      · exact iff_of_false (h.ne_new (by simp)).symm (not_not.mpr hnew)
      · exact iff_of_true (Option.some.inj hhead).symm hother

end Fallback

end Turns

end Pages

/-! ## Lines -/

namespace Session

/-- What is selected after a successful line that changes a page.  If the selected id is that of a
page, the selected page is the one that was selected, changed if it is the one that the line is
about.  If it is not, the selected page is the one that the line gives this id, or else the one that
stands first; and so it is the one that was selected exactly if the changed page was the first one
before the line and is selected after it, or is neither. -/
theorem answer_designates {p : Project} (hids : Distinct p.pageIds) (ids : IdSource)
    (collaborators : Collaborators) {line : String} {tokens : List String}
    (hcalls : Calls line Builtin.pages[1] tokens) (j : Journal)
    (hsuccess : (answer ids collaborators (some p) line j).success = true) :
    ∃ args q before page after new k w w',
      Pages.changeGrammar.parse tokens (.int p.fps) = .ok args ∧
      (answer ids collaborators (some p) line j).projectAfter (some p) = some q ∧
      Pages.Turns p args before page after new k q ∧
      p.selectedPage? = some w ∧ q.selectedPage? = some w' ∧
      (p.appState.selectedPageId ∈ p.pageIds → Pages.Becomes page new w w') ∧
      (p.appState.selectedPageId ∉ p.pageIds →
        (new.id = p.appState.selectedPageId → w' = new) ∧
        (new.id ≠ p.appState.selectedPageId → q.pages.head? = some w') ∧
        (Pages.Becomes page new w w' ↔
          (before = [] ↔ k = 0 ∨ new.id = p.appState.selectedPageId))) := by
  obtain ⟨args, before, page, after, new, k, hargs, hturns⟩ :=
    Pages.turns_of_effect hids rfl (effect_of_success hcalls hsuccess)
  by_cases hmem : p.appState.selectedPageId ∈ p.pageIds
  case pos =>
    obtain ⟨w, w', hw, hw', hbecomes⟩ := hturns.becomes_of_mem hids hmem
    exact ⟨args, _, before, page, after, new, k, w, w', hargs, Outcome.projectAfter_some _ p,
      hturns, hw, hw', fun _ => hbecomes, fun hnot => absurd hmem hnot⟩
  case neg =>
    obtain ⟨w, w', hw, hw', hrest⟩ := hturns.becomes_of_not_mem hids hmem
    exact ⟨args, _, before, page, after, new, k, w, w', hargs, Outcome.projectAfter_some _ p,
      hturns, hw, hw', fun hmem' => absurd hmem' hmem, fun _ => hrest⟩

/-- A page that is selected by its id stays selected under another id and in another place. -/
theorem renamed_page_stays_selected :
    let p := twoPages.withState fun s => { s with selectedPageId := .text "b" }
    let o := answer .counting {} (some p) "/set-page --id b --new-id c --before a" {}
    Distinct p.pageIds ∧ o.success = true ∧ ∃ q page new w w',
      o.projectAfter (some p) = some q ∧ p.selectedPage? = some w ∧ q.selectedPage? = some w' ∧
      Pages.Becomes page new w w' := by
  intro p o
  have hids : Distinct p.pageIds := twoPages_distinct
  have hcalls : Calls "/set-page --id b --new-id c --before a" Builtin.pages[1]
      ["--id", "b", "--new-id", "c", "--before", "a"] := ⟨"set-page", by decide +kernel, rfl⟩
  have hsuccess : o.success = true := by decide +kernel
  obtain ⟨args, q, before, page, after, new, k, w, w', -, hq, -, hw, hw', hbecomes, -⟩ :=
    answer_designates hids .counting {} hcalls {} hsuccess
  exact ⟨hids, hsuccess, q, page, new, w, w', hq, hw, hw',
    hbecomes (List.mem_cons_of_mem _ List.mem_cons_self)⟩

/-- A page that is selected by falling back is not selected any more when it goes behind another
one, and when another one gets the selected id. -/
theorem first_page_loses_selection :
    let selected (p : Project) := p.selectedPage?.map (·.name.display)
    let after (p : Project) (line : String) := (answer .counting {} (some p) line {}).revised
    let stale := twoPages.withState fun s => { s with selectedPageId := .text "gone" }
    Distinct twoPages.pageIds ∧ selected twoPages = some "a" ∧
      (after twoPages "/set-page --id a --after b").map selected = some (some "b") ∧
    Distinct stale.pageIds ∧ selected stale = some "a" ∧
      (after stale "/set-page --id b --new-id gone").map selected = some (some "b") := by
  refine ⟨twoPages_distinct, ?_, ?_, twoPages_distinct, ?_, ?_⟩
  all_goals decide +kernel

end Session

end Montage
