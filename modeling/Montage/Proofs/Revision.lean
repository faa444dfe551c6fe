/-
# The projects that commands make

What comes after an update of a collection: a changed note is stamped with the
time where it stands, the selection follows a page to its new id, and the pages
that remain after a deletion give a new selection if the selected page is gone.
-/
import Montage.Command.Notes
import Montage.Proofs.Fields
import Montage.Proofs.Target

namespace Montage

section Answer
variable {α : Type} {p : Project} {u : Update α} {revised : Option Project}

theorem answer_of_unchanged (h : u.changed = false) :
    (if u.changed then revised else none).getD p = p := by
  simp only [h, Bool.false_eq_true, if_false, Option.getD_none]

theorem answer_of_changed (h : u.changed = true) :
    (if u.changed then revised else none).getD p = revised.getD p := by
  simp only [h, if_true]

end Answer

namespace Collection

variable {p q : Project}

theorem placeOf_nat {n k : Nat} (h : k < n) : placeOf n k = .ok k := by
  have hk : ¬ ((k : Int) < 0) := by omega
  have hplace : placeOf? n k = some k := by
    simp only [placeOf?, hk, if_false]
    rw [if_pos (by omega)]
    rfl
  rw [placeOf, hplace]

theorem replaceAt_eq_ok {c : Collection} {i : Int} {x : c.Item} :
    c.replaceAt p i x = .ok q ↔
      ∃ xs k, c.items p = .ok xs ∧ placeOf xs.length i = .ok k ∧ q = c.replace p (xs.set k x) := by
  unfold replaceAt
  simp only [bind_eq_ok, pure_eq_ok, eq_comm (a := q)]
  constructor
  · rintro ⟨xs, hxs, k, hk, hq⟩
    exact ⟨xs, k, hxs, hk, hq⟩
  · rintro ⟨xs, k, hxs, hk, hq⟩
    exact ⟨xs, hxs, k, hk, hq⟩

/-- An update without a move leaves the merged item where it was. -/
theorem update_unmoved {c : Collection} {id : Value} {changes : Changes} {fps : Number}
    {frameFields : List String} {mode : MoveMode} {u : Update c.Item}
    (h : c.update p id changes fps frameFields none mode = .ok u) :
    ∃ before x after, c.items p = .ok (before ++ x :: after) ∧ FirstWithId id before x ∧
      ((u.item = x ∧ u.changed = false ∧ u.revised = none) ∨
        ∃ diff, Changes.merge x fps frameFields changes = .ok (u.item, diff) ∧ diff ≠ [] ∧
          u.newIndex = before.length ∧ u.changed = true ∧
          u.revised = some (c.replace p (before ++ u.item :: after))) := by
  obtain ⟨before, x, after, y, diff, t, ys, k, hxs, hfirst, ht, hy, hk, rfl⟩ :=
    update_eq_ok.mp h
  cases ht
  cases hk
  refine ⟨before, x, after, hxs, hfirst, ?_⟩
  cases hdiff : diff.isEmpty with
  | true =>
      left
      simp [Update.changed]
  | false =>
      right
      refine ⟨diff, hy, fun hnil => ?_, ?_, ?_, ?_⟩
      · rw [hnil] at hdiff
        cases hdiff
      all_goals simp [Update.changed, hdiff]

end Collection

/-! ## Notes -/

/-- A changed note stands where it stood, with the time of the change. -/
theorem Notes.stamp_cases {p : Project} {now : String} {id : Value} {changes : Changes}
    {fps : Number} {frameFields : List String} {mode : MoveMode} {u v : Update Note}
    (hu : Collection.notes.update p id changes fps frameFields none mode = .ok u)
    (hv : stamp now u = .ok v) :
    ∃ before x after, p.notes = before ++ x :: after ∧ FirstWithId id before x ∧
      ((v.item = x ∧ v.changed = false) ∨
        ∃ diff, Changes.merge x fps frameFields changes = .ok (v.item, diff) ∧ diff ≠ [] ∧
          v.changed = true ∧
          v.revised = some { p with
            notes := before ++ { v.item with updatedAt := .text now } :: after }) := by
  obtain ⟨before, x, after, hxs, hfirst, hcases⟩ := Collection.update_unmoved hu
  refine ⟨before, x, after, Collection.items_notes.mp hxs, hfirst, ?_⟩
  unfold stamp at hv
  rcases hcases with ⟨hitem, hchanged, hnone⟩ | ⟨diff, hmerge, hdiff, hindex, hchanged, hrevised⟩
  · rw [hnone] at hv
    cases hv
    exact .inl ⟨hitem, hchanged⟩
  · rw [hrevised] at hv
    simp only [bind_eq_ok, pure_eq_ok, Collection.replaceAt_eq_ok] at hv
    obtain ⟨q, ⟨xs, k, hxs', hk, rfl⟩, rfl⟩ := hv
    obtain rfl : before ++ u.item :: after = xs := Collection.items_notes.mp hxs'
    rw [hindex, Collection.placeOf_nat (by simp)] at hk
    cases hk
    refine .inr ⟨diff, hmerge, hdiff, hchanged, ?_⟩
    have hset : (before ++ u.item :: after).set before.length { u.item with updatedAt := .text now }
        = before ++ { u.item with updatedAt := .text now } :: after := by
      rw [List.set_append_right _ _ (Nat.le_refl _), Nat.sub_self, List.set_cons_zero]
    dsimp only
    rw [hset]
    rfl

/-! ## Pages -/

namespace Pages

variable {p q : Project}

/-- The selected page follows to its new id, and nothing else changes. -/
theorem reselect_eq (oldId : Value) (newId : String) :
    reselect oldId newId p = p.withState fun s => { s with
      selectedPageId :=
        if s.selectedPageId.same oldId then .text newId else s.selectedPageId } := by
  unfold reselect
  split
  · simp_all [Project.withState]
  · simp_all [Project.withState]

/-- A new id of a page is not its id, and no page has it. -/
theorem newId?_eq_some {page : Page} {args : Arguments} {id : String}
    (h : newId? p page args = .ok (some id)) :
    page.id.isText id = false ∧ ∀ x ∈ p.pages, Entity.hasId x (.text id) = false := by
  unfold newId? at h
  split at h
  · cases h
  · split at h
    · cases h
    · split at h
      · cases h
      · rename_i hne hfree
        cases h
        refine ⟨by simpa using hne, place?_eq_none.mp ?_⟩
        simpa using hfree

/-- The command that changes a page leaves its elements alone. -/
theorem merge_elements {args : Arguments} {tokens : List String} {fps fps' : Number}
    {newId : Option String} {frameFields diff : List String} {page new : Page}
    (hargs : changeGrammar.parse tokens fps' = .ok args)
    (hmerge : Changes.merge page fps frameFields
      (args.except ["target", "id", "new_id", "before", "after"] ++
        (newId.map fun id => ("id", Value.text id)).toList) = .ok (new, diff)) :
    new.elements = page.elements := by
  refine Changes.merge_keeps Page.setOnlyBy_elements hmerge fun d hd hname => ?_
  rw [List.mem_singleton] at hname
  rcases List.mem_append.mp hd with hd | hd
  · have hfield := Grammar.mem_fields_of_parse hargs d (Arguments.mem_of_mem_except hd)
    rw [hname] at hfield
    exact absurd hfield (by decide)
  · obtain ⟨id, -, rfl⟩ := Option.map_eq_some_iff.mp (Option.mem_toList.mp hd)
    have hne : "id" ≠ "elements" := by decide
    exact hne hname

/-- A changed page has its new id, or the one it had. -/
theorem merge_newId {args : Arguments} {newId : Option String} {fps : Number}
    {frameFields diff : List String} {page new : Page} (hnewId : newId? p page args = .ok newId)
    (hmerge : Changes.merge page fps frameFields
      (args.except ["target", "id", "new_id", "before", "after"] ++
        (newId.map fun id => ("id", Value.text id)).toList) = .ok (new, diff)) :
    new.id = (newId.map Value.text).getD page.id := by
  have hnames : ∀ d ∈ args.except ["target", "id", "new_id", "before", "after"],
      d.1 ≠ "id" := fun d hd => Arguments.ne_of_mem_except hd (by decide)
  cases newId with
  | none =>
      rw [Option.map_none, Option.toList_none, List.append_nil] at hmerge
      exact Collection.merge_id (c := .pages) hmerge hnames
  | some id =>
      rw [Option.map_some, Option.getD_some]
      have hnew : page.id.same (.text id) = false := by
        have hnot := (newId?_eq_some hnewId).1
        rw [← Bool.not_eq_true] at hnot ⊢
        rwa [Value.same_text_iff, ← Value.isText_iff]
      refine (Changes.merge_get (f := Page.Field.id) Page.lawful hmerge
        (List.mem_append_right _ (List.mem_singleton.mpr rfl)) ?_ hnew).1
      intro d hd hname
      rcases List.mem_append.mp hd with hd | hd
      · exact absurd hname (hnames d hd)
      · obtain rfl := List.mem_singleton.mp hd
        rfl

/-- An update of a page keeps its elements, and its id unless it gets a new one. -/
theorem update_cases {c : Composition} {page : Page} {candidates : List (Option String)}
    {args : Arguments} {tokens : List String} {fps fps' : Number} {newId : Option String}
    {frameFields : List String} {move : Option Move} {mode : MoveMode} {u : Update Page}
    (hids : p.TextIds) (hc : p.composition = some c)
    (hargs : changeGrammar.parse tokens fps' = .ok args)
    (hpage : target p candidates = .ok page) (hnewId : newId? p page args = .ok newId)
    (hu : Collection.pages.update p page.id
      (args.except ["target", "id", "new_id", "before", "after"] ++
        (newId.map fun id => ("id", Value.text id)).toList) fps frameFields move mode = .ok u) :
    ∃ before after, c.pages = before ++ page :: after ∧
      (u.changed = false ∨ ∃ ys, ys.Perm (before ++ u.item :: after) ∧
        u.item.elements = page.elements ∧ u.item.id = (newId.map Value.text).getD page.id ∧
        u.changed = true ∧ u.revised = some (Collection.pages.replace p ys)) := by
  obtain ⟨before, x, after, hitems, hx, hcases⟩ := Collection.update_cases hu
  obtain ⟨c', hc', hpages⟩ := Collection.items_pages.mp hitems
  cases hc.symm.trans hc'
  obtain ⟨before', after', hpages', hfirst⟩ := Project.target_first hids hc hpage
  obtain ⟨rfl, rfl, rfl⟩ := hx.unique hfirst (hpages.symm.trans hpages')
  refine ⟨before, after, hpages, ?_⟩
  rcases hcases with ⟨-, hchanged, -⟩ | ⟨_, ys, hmerge, hperm, hchanged, hrevised⟩
  · exact .inl hchanged
  exact .inr ⟨ys, hperm, merge_elements hargs hmerge, merge_newId hnewId hmerge, hchanged, hrevised⟩

theorem selectAt_eq_ok {place : Nat} (h : selectAt p place = .ok q) :
    ∃ page ∈ p.pages, q = withSelected p page.id := by
  unfold selectAt at h
  dsimp only at h
  split at h
  · rename_i page hpage
    cases h
    exact ⟨page, List.mem_of_getElem? hpage, rfl⟩
  · cases h

/-- The pages without some: if the selected page was among these, one of the others is selected. -/
theorem without_eq_ok {c : Composition} {place : Nat} {ids : List Value}
    (hc : p.composition = some c) (h : without p place ids = .ok q) :
    ∃ pages, pages = c.pages.filter (fun page => !ids.any (Entity.hasId page)) ∧
      let r := Collection.pages.replace p pages
      (q = r ∧ ∀ page, p.selectedPage? = some page → ids.any (Entity.hasId page) = false) ∨
        ∃ page ∈ pages, q = withSelected r page.id := by
  unfold without at h
  obtain ⟨r, hr, h⟩ := bind_eq_ok.mp h
  obtain ⟨xs, hxs, rfl⟩ := Collection.remove_eq_ok hr
  obtain ⟨c', hc', rfl⟩ := Collection.items_pages.mp hxs
  cases hc.symm.trans hc'
  refine ⟨_, rfl, ?_⟩
  split at h
  · obtain ⟨page, hpage, rfl⟩ := selectAt_eq_ok h
    rw [Collection.replace_pages hc] at hpage
    exact .inr ⟨page, hpage, rfl⟩
  · rename_i hkept
    cases h
    refine .inl ⟨rfl, fun page hpage => ?_⟩
    simpa [hpage] using hkept

end Pages

end Montage
