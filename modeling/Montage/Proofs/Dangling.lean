/-
# The selected element after a line

The selection names an element by its id, so it may outlive the element.  A project
`SelectsElement` if it does not: no element is selected, or one of the elements on the
pages.  What a line does to a project with distinct ids of which this holds:

    new-page                       no element is selected any more
    del-elem of the selected one   no element is selected any more
    del-page, the selected page    no element is selected any more
    del-page, other pages          the same element is selected, on whatever page it is
    every other line               the same element is selected, and is still there

So one line of the table can leave the id of an element that is gone: the element is
selected, but the page that it is on is not, and this page is deleted (`Strands`).
`Session.answer_selectsElement_iff` says that this is the only way.

The first half is one argument for all commands: by `Effect.retains` an element that is
gone was deleted, and by `Effect.origin` the selection is the one before or empty.  The
deletion of pages goes by the block of pages that the line means.
-/
import Montage.Proofs.DeletedPages
import Montage.Proofs.Difference
import Montage.Proofs.Failure
import Montage.Proofs.Inventory

namespace Montage

/-! ## What may be selected, and how it is lost -/

/-- No element is selected, or one that is on a page. -/
def Project.SelectsElement (p : Project) : Prop :=
  p.appState.selectedElementId = .null ∨ p.appState.selectedElementId ∈ p.elementIds

/-- One of the pages holds the selected element, and none of them is the selected page. -/
structure Strands (p : Project) (block : List Page) : Prop where
  held : ∃ page ∈ block, page.Holds p.appState.selectedElementId
  unselected : ∀ page, p.selectedPage? = some page → page ∉ block

/-! ## Elements that are not deleted -/

section Retained
variable {p : Project} {name : String} {id v : Value} {l l' : Inventory}

theorem Project.elementIds_eq : p.elementIds = p.inventory.marks.map (·.1) := by
  rw [marks_eq, elementIds, List.map_flatMap]
  refine congrArg p.pages.flatMap (funext fun page => ?_)
  rw [Page.marks, List.map_map]
  rfl

/-- An element that is gone was deleted, by its id or with its page. -/
theorem Inventory.Retains.mem (h : Retains name id l l') (hv : v ∈ l.marks.map (·.1)) :
    v ∈ l'.marks.map (·.1) ∨ (name = "del-elem" ∧ v.same id = true) ∨ name = "del-page" := by
  obtain ⟨gone, hgone, hsub⟩ := h
  obtain ⟨mark, hmark, rfl⟩ := List.mem_map.mp hv
  rcases List.mem_append.mp (hsub.subset hmark) with hkept | hmem
  · exact .inl (List.mem_map_of_mem hkept)
  cases hgone with
  | nothing => exact absurd hmem List.not_mem_nil
  | element hname _ => exact .inr (.inl ⟨hname, (List.mem_filter.mp hmem).2⟩)
  | pages hname => exact .inr (.inr hname)

end Retained

namespace Effect

variable {ctx : Context} {p : Project} {name : String} {o : Outcome}

/-- With the selected element its selection goes. -/
theorem selection_cleared (h : Effect ctx "del-elem" o) (hp : ctx.project = some p)
    (hids : p.TextIds) (hsame : p.appState.selectedElementId.same o.entityId = true) :
    (o.revised.getD p).appState.selectedElementId = .null := by
  generalize hname : "del-elem" = name at h
  cases h with
  | deleteElement hreads _ hlocate _ ho =>
      cases hreads.project.symm.trans hp
      obtain ⟨-, hid, -⟩ := Project.located hids hlocate
      rw [ho.entityId, hid] at hsame
      rw [ho.revised, if_pos hsame]
      rfl
  | createElement hr =>
      have hother : "del-elem" ∉ ["new-text", "new-image", "new-video"] := by decide
      exact absurd (hname ▸ Elements.command_mem hr) hother
  | _ => exact absurd hname (by decide)

/-- Only the deletion of pages can take the selected element away and leave it selected. -/
theorem selectsElement (h : Effect ctx name o) (hp : ctx.project = some p) (hids : p.TextIds)
    (hselects : p.SelectsElement) (hname : name ≠ "del-page") :
    (o.revised.getD p).SelectsElement := by
  rcases (h.origin hp).selectedElement with hsame | hnull
  · rcases hselects with hnull | hmem
    · exact .inl (hsame.trans hnull)
    rw [Project.elementIds_eq] at hmem
    rcases (h.retains hp hids).mem hmem with hkept | ⟨rfl, hid⟩ | hpages
    · refine .inr ?_
      rwa [hsame, Project.elementIds_eq]
    · exact .inl (h.selection_cleared hp hids hid)
    · exact absurd hpages hname
  · exact .inl hnull

end Effect

/-! ## Deleted pages -/

section Parts
variable {ids front middle back : List Value} {id : Value}

theorem Distinct.null_not_mem (h : Distinct ids) : .null ∉ ids := fun hmem => by
  obtain ⟨_, htext⟩ := h.texts .null hmem
  cases htext

/-- One of some distinct ids is in a part of them, or around it. -/
theorem Distinct.mem_around_iff (h : Distinct (front ++ middle ++ back))
    (hid : id ∈ front ++ middle ++ back) : id ∈ front ++ back ↔ id ∉ middle := by
  obtain ⟨hleft, -, hback⟩ := List.nodup_append.mp h.nodup
  obtain ⟨-, -, hmiddle⟩ := List.nodup_append.mp hleft
  simp only [List.mem_append] at hid hback ⊢
  constructor
  · rintro (hmem | hmem) hgone
    · exact hmiddle _ hmem _ hgone rfl
    · exact hback _ (.inr hgone) _ hmem rfl
  · intro hkept
    tauto

end Parts

namespace Pages

variable {p q : Project} {c : Composition} {before block after : List Page}

theorem mem_elementIds {pages : List Page} {id : Value} :
    id ∈ elementIds pages ↔ ∃ page ∈ pages, page.Holds id := by
  simp only [elementIds, List.mem_flatMap, List.mem_map, Page.Holds]

theorem elementIds_append (xs ys : List Page) :
    elementIds (xs ++ ys) = elementIds xs ++ elementIds ys := List.flatMap_append

/-- After a block of pages was deleted, an element is selected that is gone exactly if the block
strands it. -/
theorem Deletes.selectsElement_iff (h : Deletes p c before block after q) (hids : p.DistinctIds)
    (hselects : p.SelectsElement) (hc : p.composition = some c)
    (hpages : c.pages = before ++ block ++ after) (hblock : block ≠ []) :
    q.SelectsElement ↔ ¬ Strands p block := by
  obtain ⟨page, hpage⟩ : ∃ page, p.selectedPage? = some page :=
    Project.selectedPage?_isSome (by simp [Project.pages_eq hc, hpages, hblock])
  by_cases hin : page ∈ block
  case pos =>
    obtain ⟨_, -, -, -, hnull⟩ := h.moved page hpage hin
    exact iff_of_true (.inl hnull) fun hstrands => hstrands.unselected page hpage hin
  case neg =>
    obtain ⟨-, hstate⟩ := h.kept page hpage hin
    have hold : p.elementIds = elementIds before ++ elementIds block ++ elementIds after := by
      rw [← elementIds_append, ← elementIds_append, ← hpages, ← Project.pages_eq hc]
      rfl
    have hnew : q.elementIds = elementIds before ++ elementIds after := by
      rw [h.fields, ← elementIds_append]
      rfl
    have hstrands : Strands p block ↔ p.appState.selectedElementId ∈ elementIds block := by
      rw [mem_elementIds]
      refine ⟨fun h => h.held, fun h => ⟨h, fun page' hpage' => ?_⟩⟩
      cases hpage.symm.trans hpage'
      exact hin
    have hdistinct := hids.elements
    rw [hold] at hdistinct
    rw [hstrands, Project.SelectsElement, hstate, hnew]
    rcases hselects with hnull | hmem
    · -- there is no element without an id
      rw [hnull]
      refine iff_of_true (.inl rfl) fun hmem => hdistinct.null_not_mem ?_
      exact List.mem_append_left _ (List.mem_append_right _ hmem)
    · have hnull : p.appState.selectedElementId ≠ .null :=
        fun hnull => hids.elements.null_not_mem (hnull ▸ hmem)
      rw [hold] at hmem
      rw [or_iff_right hnull, hdistinct.mem_around_iff hmem]

section Command
variable {ctx : Context} {args : Arguments} {o : Outcome}

/-- A block that strands the selected element does not hold all pages. -/
theorem ne_nil_of_strands (hc : p.composition = some c)
    (hpages : c.pages = before ++ block ++ after) (h : Strands p block) :
    before ++ after ≠ [] := by
  obtain ⟨held, hheld, -⟩ := h.held
  obtain ⟨page, hpage⟩ : ∃ page, p.selectedPage? = some page :=
    Project.selectedPage?_isSome
      (by simp [Project.pages_eq hc, hpages, List.ne_nil_of_mem hheld])
  have hmem := Project.selectedPage?_mem hpage
  rw [Project.pages_eq hc, hpages] at hmem
  intro hnil
  obtain ⟨rfl, rfl⟩ := List.append_eq_nil_iff.mp hnil
  rw [List.nil_append, List.append_nil] at hmem
  exact h.unselected page hpage hmem

/-- A deletion of pages that comes to its end leaves the id of an element that is gone exactly if
its block strands the selected element. -/
theorem delete_selectsElement_iff (hp : ctx.project = some p) (hids : p.DistinctIds)
    (hselects : p.SelectsElement) (h : delete ctx = .ok o) :
    (o.revised.getD p).SelectsElement ↔ ¬ ∃ c args before block after,
      p.composition = some c ∧ deleteGrammar.parse ctx.args (.int p.fps) = .ok args ∧
      Block p c args before block after ∧ Strands p block := by
  have hdeleted {c args before block after} (hc : p.composition = some c)
      (hargs : deleteGrammar.parse ctx.args (.int p.fps) = .ok args)
      (hblock : Block p c args before block after) (hremain : before ++ after ≠ []) :
      (o.revised.getD p).SelectsElement ↔ ¬ Strands p block := by
    have hreads : ctx.Reads deleteGrammar p c args := by
      refine ⟨hp, hc, ?_⟩
      rw [← hargs, Context.parse_of_project hp]
    obtain ⟨_, q, ho, -, hq, hdeletes⟩ := delete_block hreads hids.pages hblock hremain
    cases h.symm.trans ho
    obtain ⟨_, -, -, -, hne⟩ := hblock.found hids.pages hc
    rw [hq, Option.getD_some]
    exact hdeletes.selectsElement_iff hids hselects hc hblock.pages hne
  constructor
  · rintro hafter ⟨c, args, before, block, after, hc, hargs, hblock, hstrands⟩
    have hremain := ne_nil_of_strands hc hblock.pages hstrands
    exact (hdeleted hc hargs hblock hremain).mp hafter hstrands
  · intro hnot
    obtain ⟨c, args, before, block, after, hc, hargs, hblock, hremain⟩ :=
      exists_block_of_not (not_undeletable hp hids.pages h)
    refine (hdeleted hc hargs hblock hremain).mpr fun hstrands => hnot ?_
    exact ⟨c, args, before, block, after, hc, hargs, hblock, hstrands⟩

end Command

end Pages

/-! ## Lines -/

namespace Session

/-- A line leaves an element selected that is gone exactly if it deletes a block of pages that
strands the selected element: this element is on one of these pages, and none of them is the
selected page. -/
theorem answer_selectsElement_iff {p : Project} (hids : p.DistinctIds) (hselects : p.SelectsElement)
    (ids : IdSource) (collaborators : Collaborators) (line : String) (j : Journal) :
    let o := answer ids collaborators (some p) line j
    ∃ q, o.projectAfter (some p) = some q ∧
      (q.SelectsElement ↔ ¬ (o.success = true ∧ ∃ tokens c args before block after,
        Calls line Builtin.pages[2] tokens ∧ p.composition = some c ∧
        Pages.deleteGrammar.parse tokens (.int p.fps) = .ok args ∧
        Pages.Block p c args before block after ∧ Strands p block)) := by
  intro o
  refine ⟨_, Outcome.projectAfter_some o p, ?_⟩
  rcases answer_ran ids collaborators (some p) line j with
    hrefuses | ⟨command, tokens, hcalls, -, t, j', hyields⟩
  · rw [hrefuses.revised, hrefuses.success]
    exact iff_of_true hselects fun h => Bool.false_ne_true h.1
  have heffect := effect_of_yields hcalls.mem hyields
  by_cases hname : command.name = "del-page"
  case pos =>
    have hmem : Builtin.pages[2] ∈ Builtin.commands := by simp [Builtin.commands]
    obtain rfl := Builtin.eq_of_name hcalls.mem hmem hname
    rw [Pages.delete_selectsElement_iff rfl hids hselects (yields_lift.mp hyields).1]
    refine not_congr ⟨?_, ?_⟩
    · rintro ⟨c, args, before, block, after, h⟩
      exact ⟨heffect.success, tokens, c, args, before, block, after, hcalls, h⟩
    · rintro ⟨-, tokens', c, args, before, block, after, hcalls', h⟩
      obtain ⟨-, rfl⟩ := hcalls.unique hcalls'
      exact ⟨c, args, before, block, after, h⟩
  case neg =>
    refine iff_of_true (heffect.selectsElement rfl hids.textIds hselects hname) ?_
    rintro ⟨-, tokens', c, args, before, block, after, hcalls', -⟩
    obtain ⟨rfl, -⟩ := hcalls.unique hcalls'
    exact hname rfl

/-- Two pages, of which the second one is selected, and a text on the first one, which is selected
too. -/
def scattered : Project where
  id := "project"
  name := .text "Pages"
  composition := some {
    pages := [
      { id := .text "a", name := .text "A", duration := .int 30
        elements := [{ Elements.defaultText with id := .text "t" }] },
      { id := .text "b", name := .text "B", duration := .int 30 }] }
  appState := { selectedPageId := .text "b", selectedElementId := .text "t" }

theorem scattered_distinctIds : scattered.DistinctIds where
  pages := twoPages_distinct
  audios := .nil
  notes := .nil
  elements := ⟨by decide, List.nodup_singleton _⟩

theorem scattered_selectsElement : scattered.SelectsElement := .inr (List.mem_singleton.mpr rfl)

/-- With the text its selection goes. -/
theorem deleted_text_is_not_selected :
    let o := answer .counting {} (some scattered) "/del-elem --id t --yes" {}
    scattered.DistinctIds ∧ scattered.SelectsElement ∧ o.success = true ∧
      ∃ q, o.projectAfter (some scattered) = some q ∧ q.SelectsElement := by
  intro o
  have hcalls : Calls "/del-elem --id t --yes" Builtin.elements[4] ["--id", "t", "--yes"] :=
    ⟨"del-elem", by decide +kernel, rfl⟩
  obtain ⟨q, hq, hiff⟩ := answer_selectsElement_iff scattered_distinctIds scattered_selectsElement
    .counting {} "/del-elem --id t --yes" {}
  refine ⟨scattered_distinctIds, scattered_selectsElement, by decide +kernel, q, hq, hiff.mpr ?_⟩
  rintro ⟨-, _, _, _, _, _, _, hcalls', -⟩
  obtain ⟨hcommand, -⟩ := hcalls.unique hcalls'
  exact absurd (congrArg (fun command => command.name) hcommand) (by decide)

/-- With the page of the text its selection stays. -/
theorem text_outlived_by_its_selection :
    let o := answer .counting {} (some scattered) "/del-page --id a --yes" {}
    scattered.DistinctIds ∧ scattered.SelectsElement ∧ o.success = true ∧
      ∃ q, o.projectAfter (some scattered) = some q ∧ ¬ q.SelectsElement := by
  intro o
  have hafter : o.success = true ∧ o.revised.any (fun q =>
      q.appState.selectedElementId.isText "t" && q.elementIds.isEmpty) = true := by
    decide +kernel
  obtain ⟨hsuccess, hany⟩ := hafter
  obtain ⟨q, hq, hleft⟩ := Option.any_eq_true _ _ |>.mp hany
  rw [Bool.and_eq_true, Value.isText_iff, List.isEmpty_iff] at hleft
  refine ⟨scattered_distinctIds, scattered_selectsElement, hsuccess, q, ?_, ?_⟩
  · rw [Outcome.projectAfter_some, hq, Option.getD_some]
  · rw [Project.SelectsElement, hleft.1, hleft.2]
    rintro (hnull | hmem)
    · cases hnull
    · cases hmem

end Session

end Montage
