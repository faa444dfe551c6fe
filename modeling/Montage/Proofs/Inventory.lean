/-
# What stands beside the fields of the elements

The inventory of a project tells, page by page, the ids of the elements and the entries
that each of them has beside its fields.  No command takes an element out of it but the
two that delete elements, and none changes the entries of an element that stays
(`Effect.retains`):

    new-text, …         one element more
    set-element         no option sets the entries beside the fields, nor the id
    new-page            more pages
    set-page            the elements of the page stay
    del-elem            the elements with the id of the answer are gone from one page
    del-page            the elements on the pages that are gone
    every other         the pages stay as they are
-/
import Montage.Proofs.Frame
import Montage.Proofs.Storable

namespace Montage

/-- The entries of an element beside its fields, under the id of the element. -/
abbrev Mark := Value × List (String × Value)

/-- Marks under the ids of their pages. -/
abbrev Inventory := List (Value × List Mark)

/-- All marks. -/
def Inventory.marks (l : Inventory) : List Mark := l.flatMap (·.2)

/-- The id of an element and its entries beside the fields. -/
def Element.mark (e : Element) : Mark := (e.id, e.extra.entries)

/-- The marks of the elements on the page. -/
def Page.marks (page : Page) : List Mark := page.elements.map Element.mark

/-- The marks of all elements under the ids of their pages. -/
def Project.inventory (p : Project) : Inventory := p.pages.map fun page => (page.id, page.marks)

/-- The marks on the pages of `l` whose ids no page of `l'` has. -/
def Inventory.without (l l' : Inventory) : List Mark :=
  Inventory.marks (l.filter fun page => !l'.any (·.1.same page.1))

/-- The marks that a command deletes: those with the id of the answer on one page, or those on the
pages that are gone. -/
inductive Inventory.Deletes (name : String) (id : Value) (l l' : Inventory) : List Mark → Prop
  | nothing : Deletes name id l l' []
  | element {page : Value × List Mark} : name = "del-elem" → page ∈ l →
      Deletes name id l l' (page.2.filter (·.1.same id))
  | pages : name = "del-page" → Deletes name id l l' (l.without l')

/-- The marks are still there, each as often as it was, but for those that the command deletes. -/
def Inventory.Retains (name : String) (id : Value) (l l' : Inventory) : Prop :=
  ∃ gone, Deletes name id l l' gone ∧ l.marks.Subperm (l'.marks ++ gone)

section Retains
variable {name : String} {id : Value} {l l' : Inventory}

theorem Inventory.Retains.of_subperm (h : l.marks.Subperm l'.marks) : Retains name id l l' :=
  ⟨[], .nothing, by rwa [List.append_nil]⟩

theorem Inventory.Retains.refl : Retains name id l l := .of_subperm (List.Subperm.refl _)

end Retains

namespace Project

variable {p q : Project} {c : Composition}

theorem marks_eq : p.inventory.marks = p.pages.flatMap Page.marks := by
  rw [Inventory.marks, inventory, List.flatMap_map]

theorem inventory_congr (h : q.pages = p.pages) : q.inventory = p.inventory := by
  rw [inventory, inventory, h]

theorem marks_of_composition (hc : p.composition = some c) :
    p.inventory.marks = c.pages.flatMap Page.marks := by
  rw [marks_eq, pages_eq hc]

/-- With other elements on one page, the marks are gone that are gone from this page. -/
theorem subperm_withElements {before after : List Page} {page : Page} {elements : List Element}
    {gone : List Mark} (hc : p.composition = some c) (hpages : c.pages = before ++ page :: after)
    (hq : q.pages = before ++ page.withElements elements :: after)
    (h : page.marks.Subperm (elements.map Element.mark ++ gone)) :
    p.inventory.marks.Subperm (q.inventory.marks ++ gone) := by
  have hmove : (elements.map Element.mark ++ gone ++ after.flatMap Page.marks).Perm
      (elements.map Element.mark ++ after.flatMap Page.marks ++ gone) := by
    rw [List.append_assoc, List.append_assoc]
    exact List.perm_append_comm.append_left _
  rw [marks_of_composition hc, marks_eq, hpages, hq, List.flatMap_append, List.flatMap_append,
    List.flatMap_cons, List.flatMap_cons, List.append_assoc, List.subperm_append_left]
  exact ((List.subperm_append_right _).mpr h).trans hmove.subperm

/-- A page that is left out has no id of a page that is kept. -/
theorem any_sameId_filter {pages : List Page} {page : Page} {ids : List Value}
    (hid : page.id.IsText) (hpage : page ∈ pages) :
    ((pages.filter fun page => !ids.any (Entity.hasId page)).map
      fun page => (page.id, page.marks)).any (·.1.same page.id) =
        !ids.any (Entity.hasId page) := by
  rw [List.any_map]
  cases hdoomed : ids.any (Entity.hasId page) with
  | false =>
      refine List.any_eq_true.mpr ⟨page, List.mem_filter.mpr ⟨hpage, ?_⟩, hid.same_iff.mpr rfl⟩
      rw [hdoomed]
      rfl
  | true =>
      refine List.any_eq_false.mpr fun kept hkept hsame => ?_
      have hstays := (List.mem_filter.mp hkept).2
      have hhas : Entity.hasId kept = Entity.hasId page :=
        funext fun x => congrArg (Value.same · x) (hid.same_iff.mp hsame)
      rw [hhas, hdoomed] at hstays
      cases hstays

/-- What is not on the kept pages is on the pages whose ids are gone. -/
theorem retains_filter {id : Value} (ids : List Value) (hids : p.TextIds)
    (hc : p.composition = some c)
    (hq : q.pages = c.pages.filter fun page => !ids.any (Entity.hasId page)) :
    Inventory.Retains "del-page" id p.inventory q.inventory := by
  have hgone : p.inventory.without q.inventory =
      (c.pages.filter fun page => ids.any (Entity.hasId page)).flatMap Page.marks := by
    rw [Inventory.without, Inventory.marks, inventory, inventory, hq, pages_eq hc,
      List.filter_map, List.flatMap_map]
    refine congrArg (List.flatMap Page.marks) (List.filter_congr fun page hpage => ?_)
    rw [Function.comp_apply, any_sameId_filter (hids.page hc hpage) hpage, Bool.not_not]
  refine ⟨_, .pages rfl, ?_⟩
  have hsplit := (List.filter_append_perm (fun page : Page => ids.any (Entity.hasId page))
    c.pages).symm.trans List.perm_append_comm
  rw [hgone, marks_of_composition hc, marks_eq, hq, ← List.flatMap_append]
  exact (hsplit.flatMap_right Page.marks).subperm

end Project

/-! ## The commands -/

/-- The other commands leave the pages as they are. -/
theorem Frame.pages_eq {p q : Project} {name : String} {id : Value} (h : Frame p name id q)
    (hname : name ∉ ["new-text", "new-image", "new-video", "set-element", "del-elem", "new-page",
      "set-page", "del-page"]) : q.pages = p.pages := by
  cases h with
  | audios _ hc | settings hc => rw [Project.pages_eq hc]; rfl
  | notes _ | zoom | listing _ => rfl
  | setElement | deleteElement => exact absurd (by decide) hname
  | newElement hnew => 
      refine absurd ?_ hname
      simp only [List.mem_cons, List.not_mem_nil, or_false] at hnew ⊢
      tauto
  | pages hnew =>
      refine absurd ?_ hname
      simp only [List.mem_cons, List.not_mem_nil, or_false] at hnew ⊢
      tauto

section Commands
variable {p q : Project} {c : Composition}

open Inventory (Retains)

namespace Elements

theorem create_retains {name : String} {id : Value} {page : Page} {e : Element} (hids : p.TextIds)
    (hc : p.composition = some c) (hpage : p.selectedPage? = some page)
    (hq : (Collection.elements page.id).append p e = .ok q) :
    Retains name id p.inventory q.inventory := by
  obtain ⟨before, after, hpages, rfl⟩ := Project.append_selected hids hc hpage hq
  refine ⟨[], .nothing, Project.subperm_withElements hc hpages rfl ?_⟩
  rw [List.append_nil, List.map_append]
  exact (List.sublist_append_left _ _).subperm

/-- An element that is changed keeps its id and the entries beside its fields. -/
theorem mark_of_merge {args : Arguments} {tokens : List String} {fps fps' : Number}
    {frameFields diff : List String} {e f : Element}
    (hargs : changeGrammar.parse tokens fps' = .ok args)
    (hmerge : Changes.merge e fps frameFields (args.except ["target", "id", "before", "after"]) =
      .ok (f, diff)) : f.mark = e.mark := by
  have hid : f.id = e.id := Changes.merge_keeps Element.setOnlyBy_id hmerge
    fun d hd => by simpa using Arguments.ne_of_mem_except hd (by decide)
  have hextra : f.extra = e.extra := Changes.merge_keeps Element.setOnlyBy_extra hmerge
    (Grammar.not_given hargs (by decide) _)
  rw [Element.mark, Element.mark, hid, hextra]

theorem change_retains {name : String} {id aim pageId : Value} {e : Element} {args : Arguments}
    {tokens : List String} {fps fps' : Number} {frameFields : List String} {move : Option Move}
    {mode : MoveMode} {u : Update Element} (hids : p.TextIds)
    (hargs : changeGrammar.parse tokens fps' = .ok args)
    (hlocate : locate p aim = .ok (pageId, e))
    (hu : (Collection.elements pageId).update p aim
      (args.except ["target", "id", "before", "after"]) fps frameFields move mode = .ok u) :
    Retains name id p.inventory
      ((if u.changed then u.revised else none).getD p).inventory := by
  obtain ⟨-, -, c, before, page, after, hc, hpages, -, -, hitems, hreplace⟩ :=
    Project.located hids hlocate
  obtain ⟨front, x, back, hxs, -, hcases⟩ := Collection.update_cases hu
  obtain hes : front ++ x :: back = page.elements := Except.ok.inj (hxs.symm.trans hitems)
  rcases hcases with ⟨-, hchanged, -⟩ | ⟨_, ys, hmerge, hperm, hchanged, hrevised⟩
  · rw [answer_of_unchanged hchanged]
    exact .refl
  rw [answer_of_changed hchanged, hrevised, Option.getD_some, hreplace]
  have hmarks : (ys.map Element.mark).Perm page.marks := by
    have hsame : (front ++ u.item :: back).map Element.mark = page.marks := by
      rw [Page.marks, ← hes, List.map_append, List.map_append, List.map_cons, List.map_cons,
        mark_of_merge hargs hmerge]
    exact hsame ▸ hperm.map Element.mark
  refine ⟨[], .nothing, Project.subperm_withElements hc hpages rfl ?_⟩
  rw [List.append_nil]
  exact hmarks.symm.subperm

/-- The elements that are gone have the id of the element that the answer names. -/
theorem delete_retains {aim pageId : Value} {e : Element} (hids : p.TextIds)
    (hlocate : locate p aim = .ok (pageId, e))
    (hq : (Collection.elements pageId).remove p [aim] = .ok q) :
    Retains "del-elem" e.id p.inventory q.inventory := by
  obtain ⟨haim, hid, c, before, page, after, hc, hpages, -, -, hitems, hreplace⟩ :=
    Project.located hids hlocate
  obtain ⟨xs, hxs, rfl⟩ := Collection.remove_eq_ok hq
  obtain rfl := Except.ok.inj (hxs.symm.trans hitems)
  rw [hreplace]
  have hmem : (page.id, page.marks) ∈ p.inventory :=
    List.mem_map_of_mem (Project.pages_eq hc ▸ hpages ▸ List.mem_append_cons_self)
  have hgone : page.marks.filter (·.1.same e.id) =
      (page.elements.filter fun d => [aim].any (Entity.hasId d)).map Element.mark := by
    rw [Page.marks, List.filter_map]
    refine congrArg (List.map Element.mark) (List.filter_congr fun d _ => ?_)
    rw [List.any_cons, List.any_nil, Bool.or_false, hid]
    rfl
  refine ⟨_, .element rfl hmem, Project.subperm_withElements hc hpages rfl ?_⟩
  have hsplit := (List.filter_append_perm (fun d : Element => [aim].any (Entity.hasId d))
    page.elements).symm.trans List.perm_append_comm
  rw [hgone, ← List.map_append]
  exact (hsplit.map Element.mark).subperm

end Elements

namespace Pages

theorem create_retains {name : String} {id pageId : Value} {i : Int} {pages : List Page}
    (hq : Collection.pages.insert p i pages = .ok q) :
    Retains name id p.inventory (withSelected q pageId).inventory := by
  obtain ⟨xs, hxs, rfl⟩ := Collection.insert_eq_ok.mp hq
  obtain ⟨c, hc, rfl⟩ := Collection.items_pages.mp hxs
  generalize clampTo c.pages.length i = k
  have hsub : (c.pages.take k ++ c.pages.drop k).Sublist
      (c.pages.take k ++ pages ++ c.pages.drop k) :=
    (List.sublist_append_left _ pages).append_right _
  rw [List.take_append_drop] at hsub
  refine .of_subperm ?_
  rw [Project.marks_of_composition hc, Project.marks_eq, Collection.replace_pages hc]
  exact (hsub.flatMap Page.marks).subperm

theorem change_retains {name : String} {id : Value} {page : Page}
    {candidates : List (Option String)} {args : Arguments} {tokens : List String}
    {fps fps' : Number} {newId : Option String} {frameFields : List String} {move : Option Move}
    {mode : MoveMode} {u : Update Page} {followed : Option Project}
    (hfollowed : followed = match newId with
      | some id => u.revised.map (reselect page.id id)
      | none => u.revised)
    (hids : p.TextIds) (hc : p.composition = some c)
    (hargs : changeGrammar.parse tokens fps' = .ok args)
    (hpage : target p candidates = .ok page) (hnewId : newId? p page args = .ok newId)
    (hu : Collection.pages.update p page.id
      (args.except ["target", "id", "new_id", "before", "after"] ++
        (newId.map fun id => ("id", Value.text id)).toList) fps frameFields move mode = .ok u) :
    Retains name id p.inventory ((if u.changed then followed else none).getD p).inventory := by
  obtain ⟨before, after, hpages, hchanged | ⟨ys, hperm, helements, -, hchanged, hrevised⟩⟩ :=
    update_cases hids hc hargs hpage hnewId hu
  · rw [answer_of_unchanged hchanged]
    exact .refl
  have hq : (followed.getD p).pages = ys := by
    rw [hfollowed, hrevised, Collection.replace_pages hc]
    cases newId with
    | none => rfl
    | some id =>
        simp only [Option.map_some, Option.getD_some, reselect_eq]
        rfl
  have hmarks : (before ++ u.item :: after).flatMap Page.marks = c.pages.flatMap Page.marks := by
    rw [hpages, List.flatMap_append, List.flatMap_append, List.flatMap_cons, List.flatMap_cons,
      Page.marks, helements, Page.marks]
  rw [answer_of_changed hchanged]
  refine .of_subperm ?_
  rw [Project.marks_of_composition hc, Project.marks_eq, hq, ← hmarks]
  exact (hperm.flatMap_right Page.marks).symm.subperm

/-- The pages that are gone have ids that no page has any more. -/
theorem delete_retains {id : Value} {place : Nat} {ids : List Value} (hids : p.TextIds)
    (hc : p.composition = some c) (hq : without p place ids = .ok q) :
    Retains "del-page" id p.inventory q.inventory := by
  obtain ⟨pages, rfl, ⟨rfl, -⟩ | ⟨page, -, rfl⟩⟩ := without_eq_ok hc hq
  all_goals
    refine Project.retains_filter ids hids hc ?_
    rw [Collection.replace_pages hc]
    rfl

end Pages

end Commands

namespace Effect

variable {ctx : Context} {p : Project} {name : String} {o : Outcome}

open Inventory in
/-- Every command keeps the marks that it does not delete. -/
theorem retains (h : Effect ctx name o) (hp : ctx.project = some p) (hids : p.TextIds) :
    Retains name o.entityId p.inventory (o.revised.getD p).inventory := by
  have hframe := h.frame hp hids
  have hpages (hname : name ∉ ["new-text", "new-image", "new-video", "set-element", "del-elem",
      "new-page", "set-page", "del-page"]) :
      Retains name o.entityId p.inventory (o.revised.getD p).inventory := by
    rw [Project.inventory_congr (hframe.pages_eq hname)]
    exact .refl
  cases h with
  | createElement hr hreads hpage _ _ hq ho =>
      cases hreads.project.symm.trans hp
      rw [ho.revised]
      exact Elements.create_retains hids hreads.composition hpage hq
  | changeElement hreads _ _ hlocate _ hu ho =>
      cases hreads.project.symm.trans hp
      rw [ho.revised]
      exact Elements.change_retains hids hreads.args hlocate hu
  | deleteElement hreads _ hlocate hq ho =>
      cases hreads.project.symm.trans hp
      have hq := Elements.delete_retains hids hlocate hq
      rw [ho.revised, ho.entityId, Option.getD_some]
      -- the selection does not count
      split
      all_goals exact hq
  | createPages hreads _ _ hq ho =>
      cases hreads.project.symm.trans hp
      rw [ho.revised]
      exact Pages.create_retains hq
  | changePage hreads hpage _ hnewId hu ho =>
      cases hreads.project.symm.trans hp
      rw [ho.revised]
      exact Pages.change_retains rfl hids hreads.composition hreads.args hpage hnewId hu
  | deletePages hreads _ _ _ hq ho =>
      cases hreads.project.symm.trans hp
      rw [ho.revised]
      exact Pages.delete_retains hids hreads.composition hq
  | createTrack | changeTrack | deleteTrack | createNote | changeNote | deleteNote | listNotes
  | displayPage | displayComposition | changeComposition | listFiles | zoom | listCommands =>
      exact hpages (by decide)

end Effect

end Montage
