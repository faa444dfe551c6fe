/-
# What a command is about

A command finds the page or the element it is about by an id, or by the selection,
and goes on with the id it found.  That the second look-up meets the same page or
element rests on ids being texts: a text is the same as itself and as nothing else.
-/
import Montage.Command.Pages
import Montage.Command.Elements
import Montage.Proofs.Collection

namespace Montage

section First
variable {α : Type} [Entity α] {id : Value} {before after before' after' : List α} {x x' : α}

/-- A list has one first item with an id. -/
theorem FirstWithId.unique (h : FirstWithId id before x) (h' : FirstWithId id before' x')
    (heq : before ++ x :: after = before' ++ x' :: after') :
    before = before' ∧ x = x' ∧ after = after' := by
  have hplace : Collection.place? (before ++ x :: after) id = some before.length :=
    place?_eq_some.mpr ⟨before, x, after, rfl, rfl, h⟩
  have hplace' : Collection.place? (before ++ x :: after) id = some before'.length :=
    place?_eq_some.mpr ⟨before', x', after', heq, rfl, h'⟩
  have hlength : before.length = before'.length :=
    Option.some.inj (hplace.symm.trans hplace')
  obtain ⟨hb, hrest⟩ := List.append_inj heq hlength
  exact ⟨hb, List.cons.inj hrest⟩

end First

namespace Project

variable {p : Project} {c : Composition}

theorem pages_eq (hc : p.composition = some c) : p.pages = c.pages := by
  simp [pages, hc]

theorem TextIds.page (h : p.TextIds) (hc : p.composition = some c) {page : Page}
    (hmem : page ∈ c.pages) : page.id.IsText :=
  h.pages _ (List.mem_map_of_mem (pages_eq hc ▸ hmem))

theorem TextIds.element (h : p.TextIds) (hc : p.composition = some c) {page : Page} {e : Element}
    (hmem : page ∈ c.pages) (he : e ∈ page.elements) : e.id.IsText :=
  h.elements _ (List.mem_flatMap.mpr
    ⟨page, pages_eq hc ▸ hmem, List.mem_map_of_mem he⟩)

/-! ## Pages -/

theorem selectedPage?_mem {page : Page} (h : p.selectedPage? = some page) : page ∈ p.pages := by
  unfold selectedPage? at h
  split at h
  · cases h
  · rename_i first rest hpages
    rw [hpages]
    obtain rfl := Option.some.inj h
    cases hfind : (first :: rest).find? (Entity.hasId · p.appState.selectedPageId) with
    | none => exact List.mem_cons_self
    | some page => exact List.mem_of_find?_eq_some hfind

theorem selectedPage?_isSome (hpages : p.pages ≠ []) : ∃ page, p.selectedPage? = some page := by
  unfold selectedPage?
  split
  · contradiction
  · exact ⟨_, rfl⟩

/-- The selected page is the one with the selected id, if there is one. -/
theorem selectedPage?_of_find? {page : Page}
    (h : p.pages.find? (Entity.hasId · p.appState.selectedPageId) = some page) :
    p.selectedPage? = some page := by
  unfold selectedPage?
  split
  · rename_i hnil
    rw [hnil] at h
    cases h
  · rename_i hcons
    rw [← hcons, h, Option.getD_some]

end Project

/-- A command is about the page that a line names, or else about the selected one. -/
theorem Pages.target_eq_ok {p : Project} {candidates : List (Option String)} {page : Page} :
    target p candidates = .ok page ↔
      (candidates.findSome? id = none ∧ p.selectedPage? = some page) ∨
      ∃ name i, candidates.findSome? id = some name ∧
        Collection.pages.require p (.text name) = .ok (i, page) := by
  unfold target
  cases hname : candidates.findSome? id with
  | none => cases p.selectedPage? <;> simp
  | some name =>
      constructor
      · intro h
        cases hselected : p.selectedPage? with
        | none =>
            rw [hselected] at h
            cases h
        | some first =>
            rw [hselected] at h
            obtain ⟨⟨i, x⟩, hx, h⟩ := bind_eq_ok.mp h
            cases pure_eq_ok.mp h
            exact .inr ⟨name, i, rfl, hx⟩
      · rintro (⟨hnone, -⟩ | ⟨_, i, hsome, hx⟩)
        · cases hnone
        cases hsome
        obtain ⟨before, after, hxs, -, -⟩ := Collection.require_eq_ok.mp hx
        obtain ⟨c, hc, hpages⟩ := Collection.items_pages.mp hxs
        have hne : p.pages ≠ [] := by simp [Project.pages_eq hc, hpages]
        obtain ⟨first, hselected⟩ := Project.selectedPage?_isSome hne
        rw [hselected]
        exact bind_eq_ok.mpr ⟨(i, page), hx, rfl⟩

namespace Project

variable {p : Project} {c : Composition}

/-- The page that a command is about is one of the pages. -/
theorem target_mem {candidates : List (Option String)} {page : Page}
    (h : Pages.target p candidates = .ok page) : page ∈ p.pages := by
  rcases Pages.target_eq_ok.mp h with ⟨-, hselected⟩ | ⟨name, i, -, hx⟩
  · exact selectedPage?_mem hselected
  · obtain ⟨before, after, hxs, -, -⟩ := Collection.require_eq_ok.mp hx
    obtain ⟨c, hc, hpages⟩ := Collection.items_pages.mp hxs
    rw [pages_eq hc, hpages]
    exact List.mem_append_right _ List.mem_cons_self

/-- The selected page is the first one with its id, if the ids of pages are texts. -/
theorem selectedPage?_split (hids : ∀ id ∈ p.pageIds, id.IsText) (hc : p.composition = some c)
    {page : Page} (h : p.selectedPage? = some page) :
    ∃ before after, c.pages = before ++ page :: after ∧ FirstWithId page.id before page := by
  have htext : ∀ x ∈ c.pages, x.id.IsText := fun x hx =>
    hids _ (List.mem_map_of_mem (pages_eq hc ▸ hx))
  unfold selectedPage? at h
  rw [pages_eq hc] at h
  cases hpages : c.pages with
  | nil =>
      rw [hpages] at h
      cases h
  | cons first rest =>
      rw [hpages] at h
      obtain rfl := Option.some.inj h
      cases hfind : (first :: rest).find? (Entity.hasId · p.appState.selectedPageId) with
      | none =>
          have hid := htext first (hpages ▸ List.mem_cons_self)
          exact ⟨[], rest, rfl, (hasId_iff hid).mpr rfl, by simp⟩
      | some page =>
          obtain ⟨before, after, hsplit, hfirst⟩ := find?_hasId_eq_some.mp hfind
          have hid : page.id.IsText := htext page (by rw [hpages, hsplit]; simp)
          have heq : page.id = p.appState.selectedPageId := (hasId_iff' hid).mp hfirst.hasId
          exact ⟨before, after, hsplit, heq ▸ hfirst⟩

/-- The selected page is the first one with its id. -/
theorem selectedPage?_first (hids : p.TextIds) (hc : p.composition = some c) {page : Page}
    (h : p.selectedPage? = some page) :
    ∃ before after, c.pages = before ++ page :: after ∧ FirstWithId page.id before page :=
  selectedPage?_split hids.pages hc h

/-- The page that a command is about is the first one with its id, if the ids of pages are texts. -/
theorem target_split (hids : ∀ id ∈ p.pageIds, id.IsText) (hc : p.composition = some c)
    {candidates : List (Option String)} {page : Page}
    (h : Pages.target p candidates = .ok page) :
    ∃ before after, c.pages = before ++ page :: after ∧ FirstWithId page.id before page := by
  rcases Pages.target_eq_ok.mp h with ⟨-, hselected⟩ | ⟨name, i, -, hx⟩
  · exact selectedPage?_split hids hc hselected
  · obtain ⟨before, after, hxs, -, hfirst⟩ := Collection.require_eq_ok.mp hx
    obtain ⟨c', hc', hpages⟩ := Collection.items_pages.mp hxs
    cases hc.symm.trans hc'
    have heq : page.id = .text name := (hasId_iff (Value.isText_text _)).mp hfirst.hasId
    exact ⟨before, after, hpages, heq ▸ hfirst⟩

/-- The page that a command is about is the first one with its id. -/
theorem target_first (hids : p.TextIds) (hc : p.composition = some c)
    {candidates : List (Option String)} {page : Page}
    (h : Pages.target p candidates = .ok page) :
    ∃ before after, c.pages = before ++ page :: after ∧ FirstWithId page.id before page :=
  target_split hids.pages hc h

/-- An element that is added to the selected page stands at the end of its elements. -/
theorem append_selected (hids : p.TextIds) (hc : p.composition = some c) {page : Page}
    (hpage : p.selectedPage? = some page) {e : Element} {q : Project}
    (h : (Collection.elements page.id).append p e = .ok q) :
    ∃ before after, c.pages = before ++ page :: after ∧ q = { p with
      composition := some { c with
        pages := before ++ page.withElements (page.elements ++ [e]) :: after } } := by
  obtain ⟨xs, hxs, -, rfl⟩ := Collection.append_eq_ok.mp h
  obtain ⟨c', before, page', after, hc', hpages, hfirst, rfl⟩ := Collection.items_elements.mp hxs
  cases hc.symm.trans hc'
  obtain ⟨before', after', hpages', hfirst'⟩ := selectedPage?_first hids hc hpage
  obtain ⟨rfl, rfl, rfl⟩ := hfirst.unique hfirst' (hpages.symm.trans hpages')
  exact ⟨before, after, hpages, Collection.replace_elements hc hpages hfirst _⟩

/-! ## Elements -/

/-- `page`, which stands behind the pages `before`, is the first one that holds an element with the
id, and `e` is the first one among its elements. -/
structure Owner (id : Value) (before : List Page) (page : Page) (e : Element) : Prop where
  first : ∀ b ∈ before, ∀ d ∈ b.elements, Entity.hasId d id = false
  element : page.elements.find? (Entity.hasId · id) = some e

theorem Owner.mem {id : Value} {before : List Page} {page : Page} {e : Element}
    (h : Owner id before page e) : e ∈ page.elements := List.mem_of_find?_eq_some h.element

theorem Owner.hasId {id : Value} {before : List Page} {page : Page} {e : Element}
    (h : Owner id before page e) : Entity.hasId e id = true := by
  obtain ⟨_, _, -, hfirst⟩ := find?_hasId_eq_some.mp h.element
  exact hfirst.hasId

theorem findElement?_eq_some {id : Value} {page : Page} {e : Element} :
    c.findElement? id = some (page, e) ↔
      ∃ before after, c.pages = before ++ page :: after ∧ Owner id before page e := by
  unfold Composition.findElement?
  rw [List.findSome?_eq_some_iff]
  constructor
  · rintro ⟨before, x, after, hpages, hx, hbefore⟩
    simp only [Option.map_eq_some_iff, Prod.mk.injEq] at hx
    obtain ⟨_, he, rfl, rfl⟩ := hx
    refine ⟨before, after, hpages, ?_, he⟩
    intro b hb d hd
    have hnone := hbefore b hb
    rw [Option.map_eq_none_iff, List.find?_eq_none] at hnone
    simpa using hnone d hd
  · rintro ⟨before, after, hpages, hfirst, he⟩
    refine ⟨before, page, after, hpages, ?_, ?_⟩
    · rw [he]
      rfl
    · intro b hb
      rw [Option.map_eq_none_iff, List.find?_eq_none]
      intro d hd
      simp [hfirst b hb d hd]

theorem findElement?_eq_none {id : Value} :
    c.findElement? id = none ↔
      ∀ page ∈ c.pages, ∀ e ∈ page.elements, Entity.hasId e id = false := by
  simp [Composition.findElement?]

/-- The element that a command is about is on the first page with the id that was found for it. -/
theorem locate_eq_ok (hids : p.TextIds) {aim pageId : Value} {e : Element}
    (h : Elements.locate p aim = .ok (pageId, e)) :
    ∃ c before page after, p.composition = some c ∧ c.pages = before ++ page :: after ∧
      FirstWithId pageId before page ∧ Owner aim before page e ∧ page.id = pageId := by
  unfold Elements.locate Collection.owning at h
  simp only [bind_eq_ok, pure_eq_ok, Prod.exists, Collection.requireComposition_eq_ok,
    Prod.mk.injEq] at h
  obtain ⟨_, ⟨c, hc, hfound⟩, _, x, hx, rfl, rfl⟩ := h
  split at hfound
  · rename_i owner d howner
    cases hfound
    obtain ⟨before, after, hpages, how⟩ := findElement?_eq_some.mp howner
    obtain ⟨eb, ea, hitems, -, hxfirst⟩ := Collection.require_eq_ok.mp hx
    obtain ⟨c', before', page, after', hc', hpages', hfirst', hes⟩ :=
      Collection.items_elements.mp hitems
    cases hc.symm.trans hc'
    have hid : owner.id.IsText := hids.page hc (by rw [hpages]; simp)
    have hsplit : before ++ owner :: after = before' ++ page :: after' :=
      hpages.symm.trans hpages'
    have hfind : page.elements.find? (Entity.hasId · aim) = some x :=
      find?_hasId_eq_some.mpr ⟨eb, ea, hes, hxfirst⟩
    rcases List.append_eq_append_iff.mp hsplit with ⟨t, rfl, ht⟩ | ⟨t, rfl, ht⟩
    · cases t with
      | nil =>
          obtain ⟨rfl, rfl⟩ := List.cons.inj ht
          rw [List.append_nil] at hfirst' hpages'
          exact ⟨c, before, owner, after, hc, hpages', hfirst', ⟨how.first, hfind⟩, rfl⟩
      | cons _ _ =>
          -- the owner would stand before the first page with its id
          cases ht
          have hno := hfirst'.first owner (by simp)
          rw [(hasId_iff hid).mpr rfl] at hno
          cases hno
    · cases t with
      | nil =>
          obtain ⟨rfl, rfl⟩ := List.cons.inj ht
          rw [List.append_nil] at how
          exact ⟨c, before', page, after', hc, hpages', hfirst', ⟨how.first, hfind⟩, rfl⟩
      | cons _ _ =>
          -- a page before the owner would hold the element
          cases ht
          have hno := how.first page (by simp) x (List.mem_of_find?_eq_some hfind)
          rw [hxfirst.hasId] at hno
          cases hno
  · cases hfound

end Project

/-- The page holds an element with the id. -/
def Page.Holds (page : Page) (id : Value) : Prop := ∃ e ∈ page.elements, e.id = id

/-- The collection of a located element is that of the first page that holds it. -/
theorem Project.located {p : Project} (hids : p.TextIds) {aim pageId : Value} {e : Element}
    (h : Elements.locate p aim = .ok (pageId, e)) :
    aim.IsText ∧ e.id = aim ∧ ∃ c before page after, p.composition = some c ∧
      c.pages = before ++ page :: after ∧ (∀ b ∈ before, ¬ b.Holds aim) ∧ page.Holds aim ∧
      (Collection.elements pageId).items p = .ok page.elements ∧
      ∀ ys, (Collection.elements pageId).replace p ys = { p with
        composition := some { c with pages := before ++ page.withElements ys :: after } } := by
  obtain ⟨c, before, page, after, hc, hpages, hfirst, howner, -⟩ := locate_eq_ok hids h
  have htext : (Entity.id e).IsText := hids.element hc (by rw [hpages]; simp) howner.mem
  have hid : e.id = aim := (hasId_iff' htext).mp howner.hasId
  refine ⟨hid ▸ htext, hid, c, before, page, after, hc, hpages, ?_, ⟨e, howner.mem, hid⟩,
    Collection.items_elements.mpr ⟨c, before, page, after, hc, hpages, hfirst, rfl⟩,
    Collection.replace_elements hc hpages hfirst⟩
  rintro b hb ⟨d, hd, hdid⟩
  have htext : (Entity.id d).IsText := hids.element hc (by rw [hpages]; simp [hb]) hd
  have hno := howner.first b hb d hd
  rw [(hasId_iff' htext).mpr hdid] at hno
  cases hno

end Montage
