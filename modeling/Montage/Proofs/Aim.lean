/-
# The id that a line gives

Five commands work on the page or the element that the line names, and on the
selected one if it names none.  Two of them delete.  `Aimed p id name o` says that the
command `name`, which answered `o`, was about a page or an element of `p` whose id is
`id`, and what it did to it:

    ls-page       its document is shown
    set-page      it is left as it is, or has another page in its place
    del-page      it and the pages behind it are deleted, as many as were asked for
    set-element   it is left as it is, or has another element in its place
    del-elem      it is deleted

A given id that is not empty is never exchanged for the selection (`answer_aimed`).
An empty one is: it counts as none (`empty_id_deletes_the_selected_element`).

No assumption on the project is made.  Where ids repeat, the page or the element is
the first one with its id, and a deletion, which goes by the ids, takes the others
with it.
-/
import Montage.Proofs.Range

namespace Montage

/-! ## Pages and elements with an id -/

section Places
variable (p : Project) (id : Value)

/-- Behind the pages `before` stands the first page with the id. -/
structure Project.FirstPage (c : Composition) (before : List Page) (page : Page)
    (after : List Page) : Prop where
  composition : p.composition = some c
  pages : c.pages = before ++ page :: after
  named : page.id = id
  first : ∀ b ∈ before, b.id ≠ id

/-- Behind the elements `front` of a page stands the first of them with the id. -/
structure Project.FirstElement (c : Composition) (before : List Page) (page : Page)
    (after : List Page) (front : List Element) (e : Element) (back : List Element) : Prop where
  composition : p.composition = some c
  pages : c.pages = before ++ page :: after
  elements : page.elements = front ++ e :: back
  named : e.id = id
  first : ∀ d ∈ front, d.id ≠ id

/-- What a command did about the page or the element with the id. -/
inductive Aimed : String → Outcome → Prop
  | shownPage {c : Composition} {before after : List Page} {page : Page} {o : Outcome} :
      p.FirstPage id c before page after →
      o.revised = none → o.data = Document.ofPage page → o.entityId = id → Aimed "ls-page" o
  | keptPage {c : Composition} {before after : List Page} {page : Page} {o : Outcome} :
      p.FirstPage id c before page after → o.revised = none → Aimed "set-page" o
  | changedPage {c : Composition} {before after pages : List Page} {page new : Page}
      {pageId : Value} {o : Outcome} :
      p.FirstPage id c before page after →
      pages.Perm (before ++ new :: after) →
      o.revised = some { p with
        composition := some { c with pages }
        appState := { p.appState with selectedPageId := pageId } } → Aimed "set-page" o
  | deletedPages {c : Composition} {before after : List Page} {page : Page}
      {pageId elementId : Value} {n : Nat} {o : Outcome} :
      p.FirstPage id c before page after →
      o.revised = some { p with
        composition := some { c with
          pages := c.pages.filter fun q =>
            !((page :: after.take n).map (·.id)).any (Entity.hasId q) }
        appState := { p.appState with
          selectedPageId := pageId, selectedElementId := elementId } } →
      o.entityId = id → Aimed "del-page" o
  | keptElement {c : Composition} {before after : List Page} {page : Page}
      {front back : List Element} {e : Element} {o : Outcome} :
      p.FirstElement id c before page after front e back →
      o.revised = none → o.entityId = id → Aimed "set-element" o
  | changedElement {c : Composition} {before after : List Page} {page : Page}
      {front back elements : List Element} {e new : Element} {o : Outcome} :
      p.FirstElement id c before page after front e back →
      elements.Perm (front ++ new :: back) → new.id = id →
      o.revised = some { p with
        composition := some { c with pages := before ++ page.withElements elements :: after } } →
      o.entityId = id → Aimed "set-element" o
  | deletedElement {c : Composition} {before after : List Page} {page : Page}
      {front back : List Element} {e : Element} {elementId : Value} {o : Outcome} :
      p.FirstElement id c before page after front e back →
      o.revised = some { p with
        composition := some { c with
          pages := before ++
            page.withElements (page.elements.filter fun d => !Entity.hasId d id) :: after }
        appState := { p.appState with selectedElementId := elementId } } →
      o.entityId = id → Aimed "del-elem" o

end Places

namespace Builtin

/-- What the commands accept that are about a page or an element. -/
def aimingGrammars : List Grammar :=
  [Pages.displayGrammar, Pages.changeGrammar, Pages.deleteGrammar, Elements.changeGrammar,
   Elements.deleteGrammar]

theorem aiming_unique {g g' : Grammar} (hg : g ∈ aimingGrammars) (hg' : g' ∈ aimingGrammars)
    (h : g.command = g'.command) : g = g' := by
  simp only [aimingGrammars, List.mem_cons, List.not_mem_nil, or_false] at hg hg'
  rcases hg with rfl | rfl | rfl | rfl | rfl <;> rcases hg' with rfl | rfl | rfl | rfl | rfl <;>
    first | rfl | exact absurd h (by decide)

end Builtin

variable {p : Project} {c : Composition} {id : String}

/-! ## Looking up what the line names -/

section First
variable {α : Type} [Entity α] {before : List α} {x : α}

theorem firstWithId_text :
    FirstWithId (.text id) before x ↔
      Entity.id x = .text id ∧ ∀ b ∈ before, Entity.id b ≠ .text id := by
  have htext := Value.isText_text id
  constructor
  · intro h
    refine ⟨(hasId_iff htext).mp h.hasId, fun b hb hid => ?_⟩
    have hno := h.first b hb
    rw [(hasId_iff htext).mpr hid] at hno
    cases hno
  · rintro ⟨hid, hfirst⟩
    refine ⟨(hasId_iff htext).mpr hid, fun b hb => ?_⟩
    rw [← Bool.not_eq_true, hasId_iff htext]
    exact hfirst b hb

end First

namespace Project

theorem FirstElement.firstWithId {before after : List Page} {page : Page}
    {front back : List Element} {e : Element}
    (h : p.FirstElement (.text id) c before page after front e back) :
    FirstWithId (.text id) front e :=
  firstWithId_text.mpr ⟨h.named, h.first⟩

theorem FirstPage.firstWithId {before after : List Page} {page : Page}
    (h : p.FirstPage (.text id) c before page after) : FirstWithId (.text id) before page :=
  firstWithId_text.mpr ⟨h.named, h.first⟩

/-- The page that an id leads to is the first one with this id. -/
theorem firstPage_of_target {candidates : List (Option String)} {page : Page}
    (hc : p.composition = some c) (h : Pages.target p (some id :: candidates) = .ok page) :
    ∃ before after, p.FirstPage (.text id) c before page after := by
  unfold Pages.target at h
  split at h
  · cases h
  · rename_i hnone
    cases hnone
  · rename_i hsome
    cases hsome
    obtain ⟨⟨i, x⟩, hx, h⟩ := bind_eq_ok.mp h
    cases pure_eq_ok.mp h
    obtain ⟨before, after, hxs, -, hfirst⟩ := Collection.require_eq_ok.mp hx
    obtain ⟨c', hc', hpages⟩ := Collection.items_pages.mp hxs
    cases hc.symm.trans hc'
    obtain ⟨hid, hothers⟩ := firstWithId_text.mp hfirst
    exact ⟨before, after, hc, hpages, hid, hothers⟩

/-- The element that an id leads to has this id, and its collection is that of its page. -/
theorem firstElement_of_locate {pageId : Value} {e : Element}
    (h : Elements.locate p (.text id) = .ok (pageId, e)) :
    ∃ c before page after front back,
      p.FirstElement (.text id) c before page after front e back ∧
      (Collection.elements pageId).items p = .ok page.elements ∧
      ∀ ys, (Collection.elements pageId).replace p ys = { p with
        composition := some { c with pages := before ++ page.withElements ys :: after } } := by
  obtain ⟨_, hrequire⟩ := Elements.require_of_locate h
  obtain ⟨front, back, hxs, -, hfirst⟩ := Collection.require_eq_ok.mp hrequire
  obtain ⟨c, before, page, after, hc, hpages, hpage, helements⟩ :=
    Collection.items_elements.mp hxs
  obtain ⟨hid, hothers⟩ := firstWithId_text.mp hfirst
  exact ⟨c, before, page, after, front, back, ⟨hc, hpages, helements, hid, hothers⟩,
    Collection.items_elements.mpr ⟨c, before, page, after, hc, hpages, hpage, rfl⟩,
    Collection.replace_elements hc hpages hpage⟩

end Project

theorem Elements.target_given {candidates : List (Option String)} {aim : Value}
    (h : target p (some id :: candidates) = .ok aim) : aim = .text id := by
  cases h
  rfl

theorem Arguments.nonempty?_of_get? {args : Arguments} {name s : String}
    (h : args.get? name = some (.text s)) (hne : s ≠ "") : args.nonempty? name = some s := by
  unfold get? at h
  simp [nonempty?, text?, h, hne]

/-! ## The commands -/

section Commands
variable {ctx : Context} {args : Arguments} {o : Outcome}

namespace Pages

theorem change_aimed {before after : List Page} {page : Page} {newId : Option String}
    {move : Option Move} {u : Update Page}
    (hpage : p.FirstPage (.text id) c before page after)
    (hu : Collection.pages.update p page.id
      (args.except ["target", "id", "new_id", "before", "after"] ++
        (newId.map fun id => ("id", Value.text id)).toList)
      (.int p.fps) ["duration"] move .relative = .ok u)
    (ho : o.revised = if u.changed then
        match newId with
        | some id => u.revised.map (reselect page.id id)
        | none => u.revised
      else none) : Aimed p (.text id) "set-page" o := by
  rw [hpage.named] at hu
  obtain ⟨before', x, after', hxs, hx, hcases⟩ := Collection.update_cases hu
  obtain ⟨c', hc, hpages⟩ := Collection.items_pages.mp hxs
  cases hpage.composition.symm.trans hc
  obtain ⟨rfl, rfl, rfl⟩ := hpage.firstWithId.unique hx (hpage.pages.symm.trans hpages)
  rcases hcases with ⟨-, hchanged, -⟩ | ⟨_, pages, -, hperm, hchanged, hrevised⟩
  · exact .keptPage hpage (by rw [ho, hchanged]; rfl)
  · rw [hchanged, if_pos rfl, hrevised] at ho
    cases newId with
    | none =>
        rw [Collection.replace_pages hc] at ho
        exact .changedPage hpage hperm ho
    | some newId =>
        simp only [Option.map_some, reselect_eq, Collection.replace_pages hc] at ho
        exact .changedPage hpage hperm ho

theorem delete_aimed {before after : List Page} {page found : Page} {place : Nat} {q : Project}
    (hpage : p.FirstPage (.text id) c before page after)
    (hargs : ctx.parse deleteGrammar = .ok args)
    (hfound : Collection.pages.require p page.id = .ok (place, found))
    (hq : without p place (((c.pages.drop place).take (count args)).map (·.id)) = .ok q)
    (ho : o.revised = some q) (hid : o.entityId = page.id) :
    Aimed p (.text id) "del-page" o := by
  rw [hpage.named] at hfound hid
  obtain ⟨before', after', hxs, rfl, hx⟩ := Collection.require_eq_ok.mp hfound
  obtain ⟨c', hc, hpages⟩ := Collection.items_pages.mp hxs
  cases hpage.composition.symm.trans hc
  obtain ⟨rfl, rfl, rfl⟩ := hpage.firstWithId.unique hx (hpage.pages.symm.trans hpages)
  obtain ⟨n, hn⟩ := Nat.exists_eq_add_of_lt (count_pos hargs)
  have hblock : (c.pages.drop before.length).take (count args) = page :: after.take n := by
    rw [hpages, List.drop_left, hn, Nat.zero_add, List.take_succ_cons]
  rw [hblock] at hq
  obtain ⟨pages, rfl, ⟨rfl, -⟩ | ⟨selected, -, rfl⟩⟩ := without_eq_ok hc hq
  · rw [Collection.replace_pages hc] at ho
    exact .deletedPages hpage ho hid
  · rw [Collection.replace_pages hc] at ho
    exact .deletedPages hpage ho hid

end Pages

namespace Elements

theorem change_aimed {pageId : Value} {e : Element} {move : Option Move} {u : Update Element}
    (hlocate : locate p (.text id) = .ok (pageId, e))
    (hu : (Collection.elements pageId).update p (.text id)
      (args.except ["target", "id", "before", "after"]) (.int p.fps) frameFields move .absolute =
        .ok u)
    (ho : o.revised = if u.changed then u.revised else none) (hid : o.entityId = u.item.id) :
    Aimed p (.text id) "set-element" o := by
  obtain ⟨c, before, page, after, front, back, helement, hitems, hreplace⟩ :=
    Project.firstElement_of_locate hlocate
  obtain ⟨front', x, back', hxs, hx, hcases⟩ := Collection.update_cases hu
  have hsplit : front ++ e :: back = front' ++ x :: back' :=
    helement.elements.symm.trans (Except.ok.inj (hitems.symm.trans hxs))
  obtain ⟨rfl, rfl, rfl⟩ := helement.firstWithId.unique hx hsplit
  rcases hcases with ⟨hitem, hchanged, -⟩ | ⟨_, elements, hmerge, hperm, hchanged, hrevised⟩
  · rw [hchanged] at ho
    exact .keptElement helement ho (by rw [hid, hitem, helement.named])
  · have hsame : u.item.id = e.id := Collection.merge_id (c := .elements pageId) hmerge
      fun d hd => Arguments.ne_of_mem_except hd (by decide)
    rw [hsame, helement.named] at hid
    rw [hchanged, if_pos rfl, hrevised, hreplace] at ho
    exact .changedElement helement hperm (hsame.trans helement.named) ho hid

theorem delete_aimed {pageId : Value} {e : Element} {q : Project}
    (hlocate : locate p (.text id) = .ok (pageId, e))
    (hq : (Collection.elements pageId).remove p [.text id] = .ok q)
    (ho : o.revised =
      some (if p.appState.selectedElementId.same (.text id) then withoutSelection q else q))
    (hid : o.entityId = e.id) : Aimed p (.text id) "del-elem" o := by
  obtain ⟨c, before, page, after, front, back, helement, hitems, hreplace⟩ :=
    Project.firstElement_of_locate hlocate
  obtain ⟨xs, hxs, rfl⟩ := Collection.remove_eq_ok hq
  cases hitems.symm.trans hxs
  rw [hreplace] at ho
  simp only [List.any_cons, List.any_nil, Bool.or_false] at ho
  rw [helement.named] at hid
  split at ho
  · exact .deletedElement helement ho hid
  · exact .deletedElement helement ho hid

end Elements

/-- A command that is given an id and comes to an end was about what has this id. -/
theorem Effect.aimed {name : String} {g : Grammar} (h : Effect ctx name o)
    (hg : g ∈ Builtin.aimingGrammars) (hname : g.command = name) (hargs : ctx.parse g = .ok args)
    (hid : args.nonempty? "id" = some id) :
    ∃ p, ctx.project = some p ∧ Aimed p (.text id) name o := by
  have hmem : name ∈ ["ls-page", "set-page", "del-page", "set-element", "del-elem"] := by
    have hall : ∀ g ∈ Builtin.aimingGrammars,
        g.command ∈ ["ls-page", "set-page", "del-page", "set-element", "del-elem"] := by decide
    exact hname ▸ hall g hg
  cases h with
  | displayPage hreads hpage hdata ho =>
      obtain rfl := Builtin.aiming_unique hg
        (show Pages.displayGrammar ∈ _ by simp [Builtin.aimingGrammars]) hname
      cases hargs.symm.trans hreads.args
      rw [hid] at hpage
      obtain ⟨before, after, hfirst⟩ := Project.firstPage_of_target hreads.composition hpage
      exact ⟨_, hreads.project, .shownPage hfirst ho.revised hdata
        (ho.entityId.trans hfirst.named)⟩
  | changePage hreads hpage _ _ hu ho =>
      obtain rfl := Builtin.aiming_unique hg
        (show Pages.changeGrammar ∈ _ by simp [Builtin.aimingGrammars]) hname
      cases hargs.symm.trans hreads.args
      rw [hid] at hpage
      obtain ⟨before, after, hfirst⟩ := Project.firstPage_of_target hreads.composition hpage
      exact ⟨_, hreads.project, Pages.change_aimed hfirst hu ho.revised⟩
  | deletePages hreads hpage hfound _ hq ho =>
      obtain rfl := Builtin.aiming_unique hg
        (show Pages.deleteGrammar ∈ _ by simp [Builtin.aimingGrammars]) hname
      cases hargs.symm.trans hreads.args
      rw [hid] at hpage
      obtain ⟨before, after, hfirst⟩ := Project.firstPage_of_target hreads.composition hpage
      exact ⟨_, hreads.project,
        Pages.delete_aimed hfirst hargs hfound hq ho.revised ho.entityId⟩
  | changeElement hreads haim _ hlocate _ hu ho =>
      obtain rfl := Builtin.aiming_unique hg
        (show Elements.changeGrammar ∈ _ by simp [Builtin.aimingGrammars]) hname
      cases hargs.symm.trans hreads.args
      rw [hid] at haim
      obtain rfl := Elements.target_given haim
      exact ⟨_, hreads.project, Elements.change_aimed hlocate hu ho.revised ho.entityId⟩
  | deleteElement hreads haim hlocate hq ho =>
      obtain rfl := Builtin.aiming_unique hg
        (show Elements.deleteGrammar ∈ _ by simp [Builtin.aimingGrammars]) hname
      cases hargs.symm.trans hreads.args
      rw [hid] at haim
      obtain rfl := Elements.target_given haim
      exact ⟨_, hreads.project, Elements.delete_aimed hlocate hq ho.revised ho.entityId⟩
  | createElement hr => exact absurd hmem (Elements.command_not_mem hr (by decide))
  | _ => exact absurd hmem (by decide)

end Commands

namespace Session

/-- A line that gives an id which is not empty fails and leaves the project alone, or is about the
page or the element that has this id. -/
theorem answer_aimed {g : Grammar} (hg : g ∈ Builtin.aimingGrammars) (ids : IdSource)
    (collaborators : Collaborators) (project : Option Project) {line : String}
    {command : Command} {tokens : List String} {args : Arguments} {id : String}
    (hcalls : Calls line command tokens) (hname : g.command = command.name)
    (hargs : (context ids collaborators project tokens).parse g = .ok args)
    (hid : args.get? "id" = some (.text id)) (hne : id ≠ "") (j : Journal) :
    (answer ids collaborators project line j).Refuses ∨
      ∃ p, project = some p ∧
        Aimed p (.text id) command.name (answer ids collaborators project line j) := by
  rcases answer_cases ids collaborators project line j with
    hrefuses | ⟨command', tokens', hcalls', -, heffect⟩
  · exact .inl hrefuses
  · obtain ⟨rfl, rfl⟩ := hcalls.unique hcalls'
    exact .inr (heffect.aimed hg hname hargs (Arguments.nonempty?_of_get? hid hne))

/-! ## Two deletions -/

theorem builtin_del_elem : ∃ command, Builtin.catalog.get? "del-elem" = some command ∧
    command.name = "del-elem" := by
  have hfound : (Builtin.catalog.get? "del-elem").any (fun c => c.name == "del-elem") = true := by
    decide +kernel
  simpa only [Option.any_eq_true, beq_iff_eq] using hfound

/-- The selected element is deleted by its id. -/
theorem named_element_is_deleted :
    ∃ command, Calls "/del-elem --id text" command ["--id", "text"] ∧
      (answer .counting {} (some (.small "note")) "/del-elem --id text" {}).success = true ∧
      Aimed (.small "note") (.text "text") command.name
        (answer .counting {} (some (.small "note")) "/del-elem --id text" {}) := by
  obtain ⟨command, hget, hname⟩ := builtin_del_elem
  have hcalls : Calls "/del-elem --id text" command ["--id", "text"] :=
    ⟨"del-elem", by decide +kernel, hget⟩
  have hsuccess :
      (answer .counting {} (some (.small "note")) "/del-elem --id text" {}).success = true := by
    decide +kernel
  refine ⟨command, hcalls, hsuccess, ?_⟩
  have hg : Elements.deleteGrammar ∈ Builtin.aimingGrammars := by simp [Builtin.aimingGrammars]
  have hargs : (context .counting {} (some (.small "note")) ["--id", "text"]).parse
      Elements.deleteGrammar = .ok [("id", .text "text")] := rfl
  rcases answer_aimed hg .counting {} (some (.small "note")) hcalls hname.symm hargs rfl
    (by decide) {} with hrefuses | ⟨p, hp, haimed⟩
  · rw [hrefuses.success] at hsuccess
    cases hsuccess
  · cases hp
    exact haimed

/-- An empty id counts as none: no element has it, and the selected one is deleted. -/
theorem empty_id_deletes_the_selected_element :
    ∃ command, Calls "/del-elem --id \"\"" command ["--id", ""] ∧
      Elements.deleteGrammar.command = command.name ∧
      (context .counting {} (some (.small "note")) ["--id", ""]).parse Elements.deleteGrammar =
        .ok [("id", .text "")] ∧
      (Project.small "note").elementIds.any (·.isText "") = false ∧
      (answer .counting {} (some (.small "note")) "/del-elem --id \"\"" {}).success = true ∧
      (answer .counting {} (some (.small "note")) "/del-elem --id \"\"" {}).revised.map
        (·.elementIds.length) = some 0 := by
  obtain ⟨command, hget, hname⟩ := builtin_del_elem
  refine ⟨command, ⟨"del-elem", by decide +kernel, hget⟩, hname.symm, rfl, by decide +kernel, ?_⟩
  decide +kernel

end Session

end Montage
