/-
# One line or two

A line that gives an item values and a position leaves the project that two lines leave, the one
without the position and the other without the values, whichever comes first
(`Setter.after_separately`).

    one update    is two, in either order (`exists_merge_move`, `exists_move_merge`)
    one line      asks for an update, and each of the two lines for its half of it
    in between    after one half the other one is asked of the same item (`Asks.persists`)

The item has to be told by its id for that.  With a selection that names no page a line is about
the first page, and a page that was moved may be the first one no more (`Pages.Told`).
-/
import Montage.Proofs.Complete
import Montage.Proofs.Request
import Montage.Proofs.Separate

namespace Montage

/-! ## After half of an update -/

namespace Collection

variable {p : Project} {c : Collection} {ys : List c.Item}

theorem appState_replace (c : Collection) (p : Project) (ys : List c.Item) :
    (c.replace p ys).appState = p.appState := by
  cases c <;> rfl

theorem fps_replace (c : Collection) (p : Project) (ys : List c.Item) :
    (c.replace p ys).fps = p.fps := by
  cases c with
  | notes => rfl
  | pages | audios | elements => cases hc : p.composition <;> simp [replace, Project.fps, hc]

theorem composition_replace {d : Composition} (hc : p.composition = some d) (c : Collection)
    (ys : List c.Item) : ∃ d', (c.replace p ys).composition = some d' := by
  cases c with
  | notes => exact ⟨d, hc⟩
  | pages | audios | elements => exact ⟨_, by rw [replace, hc]; rfl⟩

end Collection

section Element
variable {p : Project} {aim pageId : Value} {e y : Element} {changes : Changes}

theorem Elements.checkOptions_congr (hkind : y.kind = e.kind)
    (h : Elements.checkOptions e changes = .ok ()) : Elements.checkOptions y changes = .ok () := by
  unfold checkOptions at h ⊢
  rw [hkind]
  by_cases htext : e.kind = .text
  · simpa [htext] using h
  · simp only [htext, if_false] at h ⊢
    split at h
    · rename_i hnone
      rw [if_pos hnone]
    · cases h

/-- The element is found where it was, among other elements of its page. -/
theorem Elements.locate_replace {ys : List Element} (hids : p.TextIds)
    (hlocate : locate p aim = .ok (pageId, e)) (hy : ys.find? (Entity.hasId · aim) = some y) :
    locate ((Collection.elements pageId).replace p ys) aim = .ok (pageId, y) := by
  obtain ⟨c, before, page, after, hc, hpages, hfirst, howner, hid⟩ :=
    Project.locate_eq_ok hids hlocate
  obtain ⟨front, back, hys, hyfirst⟩ := find?_hasId_eq_some.mp hy
  let q := (Collection.elements pageId).replace p ys
  have hq : q = _ := Collection.replace_elements hc hpages hfirst ys
  have howner' : Project.Owner aim before (page.withElements ys) y := ⟨howner.first, hy⟩
  have hnew : FirstWithId pageId before (page.withElements ys) := ⟨hfirst.hasId, hfirst.first⟩
  have hfind : { c with pages := before ++ page.withElements ys :: after }.findElement? aim =
      some (page.withElements ys, y) :=
    Project.findElement?_eq_some.mpr ⟨before, after, rfl, howner'⟩
  have hfound : Collection.owning q aim = .ok pageId := by
    rw [hq, Collection.owning, Project.requireComposition]
    simp only [bind, Except.bind, hfind, ← hid]
    rfl
  have hrequire : (Collection.elements pageId).require q aim = .ok (front.length, y) := by
    refine Collection.require_eq_ok.mpr ⟨front, back, ?_, rfl, hyfirst⟩
    rw [hq, ← hys]
    exact Collection.items_elements.mpr ⟨_, before, _, after, rfl, rfl, hnew, rfl⟩
  show locate q aim = _
  unfold locate
  rw [hfound]
  simp only [bind, Except.bind, hrequire, pure, Except.pure]

end Element

section Page
variable {p : Project} {page : Page} {ys : List Page} {candidates : List (Option String)}

/-- The page that a line means is told by its id: it is named, or it is selected and there. -/
def Pages.Told (p : Project) (candidates : List (Option String)) : Prop :=
  (candidates.findSome? id).isSome = true ∨
    p.pages.any (Entity.hasId · p.appState.selectedPageId) = true

/-- The page with the same id is meant among other pages. -/
theorem Pages.target_replace {d : Composition} (hd : p.composition = some d) (hids : p.TextIds)
    (htold : Told p candidates) (hpage : target p candidates = .ok page)
    (hys : ∃ y ∈ ys, y.id = page.id) :
    ∃ y, target (Collection.pages.replace p ys) candidates = .ok y ∧ y.id = page.id := by
  have htext : page.id.IsText := hids.page hd (Project.pages_eq hd ▸ Project.target_mem hpage)
  obtain ⟨y, hy⟩ : ∃ y, ys.find? (Entity.hasId · page.id) = some y := by
    obtain ⟨z, hz, hsame⟩ := hys
    exact Option.isSome_iff_exists.mp
      (List.find?_isSome.mpr ⟨z, hz, (hasId_iff htext).mpr hsame⟩)
  obtain ⟨front, back, hsplit, hfirst⟩ := find?_hasId_eq_some.mp hy
  refine ⟨y, target_eq_ok.mpr ?_, (hasId_iff htext).mp hfirst.hasId⟩
  rw [Collection.replace_pages hd]
  rcases target_eq_ok.mp hpage with ⟨hnone, hselected⟩ | ⟨name, i, hsome, hx⟩
  · -- no page is named, so the selected one is there
    have hthere := htold.resolve_left (by rw [hnone]; decide)
    obtain ⟨x, hx⟩ : ∃ x, p.pages.find? (Entity.hasId · p.appState.selectedPageId) = some x :=
      Option.isSome_iff_exists.mp (List.find?_isSome.mpr (List.any_eq_true.mp hthere))
    obtain rfl := Option.some.inj (hselected.symm.trans (Project.selectedPage?_of_find? hx))
    obtain ⟨_, _, -, hfound⟩ := find?_hasId_eq_some.mp hx
    have hid : page.id = p.appState.selectedPageId := (hasId_iff' htext).mp hfound.hasId
    rw [hid] at hy
    exact .inl ⟨hnone, Project.selectedPage?_of_find? hy⟩
  · obtain ⟨_, _, -, -, hfound⟩ := Collection.require_eq_ok.mp hx
    have hid : page.id = .text name := (hasId_iff (Value.isText_text _)).mp hfound.hasId
    rw [hid] at hfirst
    exact .inr ⟨name, front.length, hsome,
      Collection.require_eq_ok.mpr ⟨front, back, by rw [← hsplit]; rfl, rfl, hfirst⟩⟩

theorem Pages.newId?_of_not_given {args : Arguments} (h : args.get? "new_id" = none) :
    newId? p page args = .ok none := by
  rw [newId?, Arguments.text?, show args.lookup "new_id" = none from h]

theorem Pages.newId?_of_none {args : Arguments} {q : Project} {y : Page}
    (hid : y.id = page.id) (h : newId? p page args = .ok none) : newId? q y args = .ok none := by
  unfold newId? at h ⊢
  split at h
  · rfl
  · rw [hid]
    split at h
    · rename_i hsame
      rw [if_pos hsame]
    · split at h
      · cases h
      · cases h

end Page

/-- The item that was changed is found among the others. -/
theorem find?_of_perm {α : Type} [Entity α] {before after ys : List α} {y : α} {id : Value}
    (hperm : ys.Perm (before ++ y :: after)) (hy : Entity.hasId y id = true)
    (hothers : ∀ z ∈ before ++ after, Entity.hasId z id = false) :
    ys.find? (Entity.hasId · id) = some y := by
  have hmem : y ∈ ys := hperm.mem_iff.mpr List.mem_append_cons_self
  obtain ⟨w, hw⟩ : ∃ w, ys.find? (Entity.hasId · id) = some w :=
    Option.isSome_iff_exists.mp (List.find?_isSome.mpr ⟨y, hmem, hy⟩)
  obtain ⟨front, back, rfl, hfirst⟩ := find?_hasId_eq_some.mp hw
  have hwmem : w ∈ before ++ y :: after := hperm.mem_iff.mp List.mem_append_cons_self
  rcases List.mem_append.mp hwmem with hmem | hmem
  · have hno := hothers w (List.mem_append_left _ hmem)
    cases hfirst.hasId.symm.trans hno
  · rcases List.mem_cons.mp hmem with rfl | hmem
    · exact hw
    · have hno := hothers w (List.mem_append_right _ hmem)
      cases hfirst.hasId.symm.trans hno

namespace Setter

section Halves
variable {p : Project} {args : Arguments} {s : Setter} {r : Request}

/-- After an update of the item that a line asks for, the line asks for the same item. -/
theorem Asks.persists (h : Asks p args s r) (hids : p.TextIds)
    (hdiffer : ∀ xs, r.collection.items p = .ok xs → Collection.IdsDiffer xs)
    (htold : s = .page → Pages.Told p [args.nonempty? "id", args.nonempty? "target"])
    {changes : Changes} (hn : ∀ d ∈ changes, d.1 ≠ "id") {fps : Number}
    {frameFields : List String} {move : Option Move} {mode : MoveMode}
    {u : Update r.collection.Item}
    (hu : r.collection.update p r.id changes fps frameFields move mode = .ok u) :
    Asks (u.project p) args s r ∧ (u.project p).fps = p.fps := by
  obtain ⟨before, x, after, hxs, hfirst, ⟨-, -, hnone⟩ | ⟨diff, ys, hmerge, hperm, -, hrevised⟩⟩ :=
    Collection.update_cases hu
  · rw [Update.project, hnone]
    exact ⟨h, rfl⟩
  rw [Update.project, hrevised, Option.getD_some]
  refine ⟨?_, Collection.fps_replace _ _ _⟩
  have hothers := (hdiffer _ hxs).others hfirst
  have hid : Entity.id u.item = Entity.id x := Collection.merge_id hmerge hn
  have hitem : Entity.hasId u.item r.id = true := by
    rw [Entity.hasId, hid]
    exact hfirst.hasId
  have hstate := Collection.appState_replace r.collection p ys
  obtain ⟨c, hc⟩ := h.composition
  obtain ⟨d, hd⟩ := Collection.composition_replace hc r.collection ys
  cases h with
  | track _ hgiven hmove h => exact .track hd hgiven hmove h
  | @element _ aim pageId e _ _ _ haim hmove hlocate h hopts =>
      have hfind := find?_of_perm hperm hitem hothers
      obtain ⟨_, hrequire⟩ := Elements.require_of_locate hlocate
      obtain ⟨before', after', hxs', -, hfirst'⟩ := Collection.require_eq_ok.mp hrequire
      obtain ⟨-, rfl, -⟩ := hfirst.unique hfirst' (Except.ok.inj (hxs.symm.trans hxs'))
      have hkind : Element.kind u.item = Element.kind x :=
        Changes.merge_keeps Element.setOnlyBy_kind hmerge fun _ _ => List.not_mem_nil
      refine .element hd ?_ hmove (Elements.locate_replace hids hlocate hfind) h
        (Elements.checkOptions_congr hkind hopts)
      rw [Elements.target, hstate]
      exact haim
  | @page _ page _ _ _ hpage hmove hnewId h =>
      have htext : page.id.IsText := hids.page hc (Project.pages_eq hc ▸ Project.target_mem hpage)
      have hmem : u.item ∈ ys := hperm.mem_iff.mpr List.mem_append_cons_self
      obtain ⟨y, hy, hyid⟩ := Pages.target_replace hc hids (htold rfl) hpage
        ⟨u.item, hmem, (hasId_iff htext).mp hitem⟩
      rw [← hyid]
      exact .page hd hy hmove (Pages.newId?_of_none hyid hnewId) h

end Halves

/-! ## Both halves -/

/-- The lines of one command that give the values and the position that one line gives together,
for an item told by its id, which stays. -/
structure Splits (s : Setter) (p : Project) (args : Arguments) (whole values position : String) :
    Prop where
  whole : ∃ tokens, Calls whole s.command tokens ∧ s.grammar.parse tokens (.int p.fps) = .ok args
  values : ∃ tokens, Calls values s.command tokens ∧
    s.grammar.parse tokens (.int p.fps) = .ok (args.except Arguments.positions)
  position : ∃ tokens, Calls position s.command tokens ∧
    s.grammar.parse tokens (.int p.fps) = .ok (args.only s.places)
  stays : args.get? "new_id" = none
  told : s = .page → Pages.Told p [args.nonempty? "id", args.nonempty? "target"]

section Both
variable {ids : IdSource} {collaborators : Collaborators} {j : Journal} {line : String}
  {tokens : List String} {p : Project} {args : Arguments} {s : Setter} {r : Request}

theorem Asks.ne_id (h : Asks p args s r) : ∀ d ∈ r.changes, d.1 ≠ "id" := by
  intro d hd
  cases h with
  | track _ _ _ h | element _ _ _ _ h | page _ _ _ _ h =>
      rw [← h] at hd
      exact Arguments.ne_of_mem_except hd (by decide)

/-- A line that succeeded asks for an update that can be made. -/
theorem exists_asks (hcalls : Calls line s.command tokens)
    (hargs : s.grammar.parse tokens (.int p.fps) = .ok args) (hnew : args.get? "new_id" = none)
    (hsuccess : (Session.answer ids collaborators (some p) line j).success = true) :
    ∃ r u, Asks p args s r ∧ r.run p = .ok u := by
  have heffect := Session.effect_of_success hcalls hsuccess
  generalize hname : s.command.name = name at heffect
  cases heffect with
  | changeTrack hreads hid hmove hu =>
      cases s with
      | track =>
          cases hreads.project
          cases hargs.symm.trans hreads.args
          exact ⟨_, _, .track hreads.composition hid hmove rfl, hu⟩
      | element | page => exact absurd hname (by decide)
  | changeElement hreads haim hmove hlocate hopts hu =>
      cases s with
      | element =>
          cases hreads.project
          cases hargs.symm.trans hreads.args
          exact ⟨_, _, .element hreads.composition haim hmove hlocate rfl hopts, hu⟩
      | track | page => exact absurd hname (by decide)
  | changePage hreads hpage hmove hnewId hu =>
      cases s with
      | page =>
          cases hreads.project
          cases hargs.symm.trans hreads.args
          cases hnewId.symm.trans (Pages.newId?_of_not_given hnew)
          rw [Option.map_none, Option.toList_none, List.append_nil] at hu
          exact ⟨_, _, .page hreads.composition hpage hmove hnewId rfl, hu⟩
      | track | element => exact absurd hname (by decide)
  | createElement hr =>
      simp only [Elements.recipes, List.mem_cons, List.not_mem_nil, or_false] at hr
      rcases hr with rfl | rfl | rfl <;> cases s <;> exact absurd hname (by decide)
  | _ => cases s <;> exact absurd hname (by decide)

end Both

end Setter

/-- A project with two pages. -/
def twoPages : Project where
  id := "project"
  name := .text "Pages"
  composition := some {
    pages := ["a", "b"].map fun id => { id := .text id, name := .text id, duration := .int 30 } }

theorem twoPages_distinct : Distinct twoPages.pageIds where
  texts := by decide
  nodup := List.Nodup.map (f := Value.text) (l := ["a", "b"]) (fun _ _ h => Value.text.inj h)
    (by decide)

-- Without an id and without a selection each line is about the page that is then the first.
example :
    let after := Session.after .counting {} {}
    let names (p : Project) := p.pages.map (·.name.display)
    names (after "/set-page --name New --after b" twoPages) = ["b", "New"] ∧
    names (after "/set-page --name New" (after "/set-page --after b" twoPages)) = ["New", "a"] := by
  decide +kernel

end Montage
