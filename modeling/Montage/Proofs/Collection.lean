/-
# The collections of a project

What the operations on a collection do, told by its items: `append`, `insert`,
`replaceAt`, `remove` and `update` answer with `c.replace p ys` for a list `ys` of
which the lemmas here say how it comes from the items `xs` that were there.  What
`replace` does to the project around the list is told once for each collection;
the elements of a page are found through the first page with an id, so for them
the composition is taken apart at that page.
-/
import Mathlib.Data.List.Perm.Basic
import Montage.Edit.Update
import Montage.Proofs.Ids
import Montage.Proofs.Merge

namespace Montage

/-! ## The first item with an id -/

section First
variable {α : Type} [Entity α] {xs before : List α} {x : α} {id : Value}

/-- `x`, which stands behind the items `before`, is the first one with the id. -/
structure FirstWithId (id : Value) (before : List α) (x : α) : Prop where
  hasId : Entity.hasId x id = true
  first : ∀ y ∈ before, Entity.hasId y id = false

theorem find?_hasId_eq_some :
    xs.find? (Entity.hasId · id) = some x ↔
      ∃ before after, xs = before ++ x :: after ∧ FirstWithId id before x := by
  rw [List.find?_eq_some_iff_append]
  constructor
  · rintro ⟨hx, before, after, rfl, hb⟩
    exact ⟨before, after, rfl, hx, by simpa using hb⟩
  · rintro ⟨before, after, rfl, hx, hb⟩
    exact ⟨hx, before, after, rfl, by simpa using hb⟩

theorem place?_eq_some {i : Nat} :
    Collection.place? xs id = some i ↔
      ∃ before x after, xs = before ++ x :: after ∧ before.length = i ∧
        FirstWithId id before x := by
  unfold Collection.place?
  induction xs generalizing i with
  | nil => simp
  | cons y ys ih =>
      rw [List.findIdx?_cons]
      cases hy : Entity.hasId y id with
      | true =>
          simp only [if_true, Option.some.injEq]
          constructor
          · rintro rfl
            exact ⟨[], y, ys, rfl, rfl, hy, by simp⟩
          · rintro ⟨before, x, after, hxs, rfl, hx, hb⟩
            cases before with
            | nil => rfl
            | cons z zs =>
                cases hxs
                rw [hb y List.mem_cons_self] at hy
                cases hy
      | false =>
          simp only [Bool.false_eq_true, if_false, Option.map_eq_some_iff, ih]
          constructor
          · rintro ⟨k, ⟨before, x, after, rfl, rfl, hx, hb⟩, rfl⟩
            refine ⟨y :: before, x, after, rfl, rfl, hx, ?_⟩
            intro z hz
            rcases List.mem_cons.mp hz with rfl | hz
            · exact hy
            · exact hb z hz
          · rintro ⟨before, x, after, hxs, rfl, hx, hb⟩
            cases before with
            | nil =>
                cases hxs
                rw [hx] at hy
                cases hy
            | cons z zs =>
                cases hxs
                exact ⟨zs.length, ⟨zs, x, after, rfl, rfl, hx,
                  fun w hw => hb w (List.mem_cons_of_mem _ hw)⟩, rfl⟩

theorem place?_eq_none : Collection.place? xs id = none ↔ ∀ x ∈ xs, Entity.hasId x id = false := by
  simp [Collection.place?, List.findIdx?_eq_none_iff]

end First

theorem updateFirst_append {α : Type} {p : α → Bool} {f : α → α} {before after : List α} {x : α}
    (hb : ∀ y ∈ before, p y = false) (hx : p x = true) :
    updateFirst p f (before ++ x :: after) = before ++ f x :: after := by
  induction before with
  | nil => simp [updateFirst, hx]
  | cons y ys ih =>
      have hy := hb y List.mem_cons_self
      simp only [List.cons_append, updateFirst, hy, Bool.false_eq_true, if_false]
      rw [ih fun z hz => hb z (List.mem_cons_of_mem _ hz)]

theorem Project.withComposition_self {p : Project} {c : Composition} (hc : p.composition = some c) :
    { p with composition := some c } = p := by
  cases p
  cases hc
  rfl

namespace Collection

variable {p : Project}

/-! ## Where the items are -/

theorem requireComposition_eq_ok {c : Composition} :
    p.requireComposition = .ok c ↔ p.composition = some c := by
  unfold Project.requireComposition
  cases p.composition <;> simp

theorem items_pages {xs : List Page} :
    pages.items p = .ok xs ↔ ∃ c, p.composition = some c ∧ c.pages = xs := by
  simp only [items, bind_eq_ok, pure_eq_ok, requireComposition_eq_ok]

theorem items_audios {xs : List Audio} :
    audios.items p = .ok xs ↔ ∃ c, p.composition = some c ∧ c.audios = xs := by
  simp only [items, bind_eq_ok, pure_eq_ok, requireComposition_eq_ok]

theorem items_notes {xs : List Note} : notes.items p = .ok xs ↔ p.notes = xs := by
  simp [items]

/-- The elements behind a page id are those of the first page with it. -/
theorem items_elements {pageId : Value} {xs : List Element} :
    (elements pageId).items p = .ok xs ↔
      ∃ c before page after, p.composition = some c ∧ c.pages = before ++ page :: after ∧
        FirstWithId pageId before page ∧ page.elements = xs := by
  simp only [items, bind_eq_ok, requireComposition_eq_ok]
  constructor
  · rintro ⟨c, hc, h⟩
    split at h
    · rename_i page hpage
      obtain ⟨before, after, hpages, hfirst⟩ := find?_hasId_eq_some.mp hpage
      exact ⟨c, before, page, after, hc, hpages, hfirst, pure_eq_ok.mp h⟩
    · cases h
  · rintro ⟨c, before, page, after, hc, hpages, hfirst, rfl⟩
    refine ⟨c, hc, ?_⟩
    rw [find?_hasId_eq_some.mpr ⟨before, after, hpages, hfirst⟩]
    rfl

theorem replace_pages {c : Composition} (hc : p.composition = some c) (ys : List Page) :
    pages.replace p ys = { p with composition := some { c with pages := ys } } := by
  simp [replace, hc]

theorem replace_audios {c : Composition} (hc : p.composition = some c) (ys : List Audio) :
    audios.replace p ys = { p with composition := some { c with audios := ys } } := by
  simp [replace, hc]

theorem replace_elements {c : Composition} {pageId : Value} {before after : List Page}
    {page : Page} (hc : p.composition = some c) (hpages : c.pages = before ++ page :: after)
    (hfirst : FirstWithId pageId before page) (ys : List Element) :
    (elements pageId).replace p ys =
      { p with
        composition := some { c with pages := before ++ page.withElements ys :: after } } := by
  simp only [replace, hc, Option.map_some, hpages]
  rw [updateFirst_append hfirst.first hfirst.hasId]

/-! ## Looking up -/

theorem require_eq_ok {c : Collection} {id : Value} {i : Nat} {x : c.Item} :
    c.require p id = .ok (i, x) ↔
      ∃ before after, c.items p = .ok (before ++ x :: after) ∧ before.length = i ∧
        FirstWithId id before x := by
  unfold require
  simp only [bind_eq_ok]
  constructor
  · rintro ⟨xs, hxs, h⟩
    split at h
    · cases h
    · rename_i k hk
      obtain ⟨before, y, after, rfl, rfl, hfirst⟩ := place?_eq_some.mp hk
      rw [List.getElem?_append_right (Nat.le_refl _)] at h
      simp only [Nat.sub_self, List.getElem?_cons_zero] at h
      cases h
      exact ⟨before, after, hxs, rfl, hfirst⟩
  · rintro ⟨before, after, hxs, rfl, hfirst⟩
    refine ⟨_, hxs, ?_⟩
    rw [place?_eq_some.mpr ⟨before, x, after, rfl, rfl, hfirst⟩]
    simp only [List.getElem?_append_right (Nat.le_refl _), Nat.sub_self, List.getElem?_cons_zero]
    rfl

/-! ## Adding and removing -/

theorem append_eq_ok {c : Collection} {x : c.Item} {q : Project} :
    c.append p x = .ok q ↔
      ∃ xs, c.items p = .ok xs ∧ (∀ y ∈ xs, Entity.hasId y (Entity.id x) = false) ∧
        q = c.replace p (xs ++ [x]) := by
  unfold append
  simp only [bind_eq_ok, error_bind, guard_eq_ok, pure_eq_ok, List.any_eq_true, not_exists,
    not_and, Bool.not_eq_true, eq_comm (a := q)]

theorem insert_eq_ok {c : Collection} {i : Int} {ys : List c.Item} {q : Project} :
    c.insert p i ys = .ok q ↔
      ∃ xs, c.items p = .ok xs ∧
        q = c.replace p (xs.take (clampTo xs.length i) ++ ys ++ xs.drop (clampTo xs.length i)) := by
  unfold insert
  simp only [bind_eq_ok, pure_eq_ok, eq_comm (a := q)]

theorem remove_eq_ok {c : Collection} {ids : List Value} {q : Project}
    (h : c.remove p ids = .ok q) :
    ∃ xs, c.items p = .ok xs ∧ q = c.replace p (xs.filter fun x => !ids.any (Entity.hasId x)) := by
  unfold remove at h
  simp only [bind_eq_ok, pure_eq_ok] at h
  obtain ⟨_, -, xs, hxs, _, -, rfl⟩ := h
  exact ⟨xs, hxs, rfl⟩

/-- Items whose ids are texts are removed by ids that are texts. -/
theorem remove_of_texts {c : Collection} {ids : List Value} {xs : List c.Item}
    (hxs : c.items p = .ok xs) (hids : ∀ id ∈ ids, id.IsText)
    (htexts : ∀ id ∈ xs.map Entity.id, id.IsText) :
    c.remove p ids = .ok (c.replace p (xs.filter fun x => !ids.any (Entity.hasId x))) := by
  unfold remove
  rw [Value.requireHashable_texts hids, ok_bind, hxs, ok_bind, Value.requireHashable_texts htexts]
  rfl

/-! ## Changing and moving -/

theorem moveItem_perm {α : Type} {xs ys : List α} {i k : Nat} {t : Int}
    (h : moveItem xs i t = .ok (ys, k)) : ys.Perm xs := by
  unfold moveItem at h
  split at h
  · cases h
  · rename_i x hx
    simp only [Except.ok.injEq, Prod.mk.injEq] at h
    obtain ⟨rfl, rfl⟩ := h
    obtain ⟨hi, rfl⟩ := List.getElem?_eq_some_iff.mp hx
    have hclamp : clampTo (xs.eraseIdx i).length t ≤ (xs.eraseIdx i).length := by
      unfold clampTo; omega
    exact (List.perm_insertIdx _ _ hclamp).trans (List.getElem_cons_eraseIdx_perm hi)

/-- Putting an item in its new place keeps the items. -/
theorem arrange_perm {α : Type} {xs ys : List α} {i k : Nat} {t : Option Int}
    (h : arrange xs i t = .ok (ys, k)) : ys.Perm xs := by
  cases t with
  | none => cases h; exact .refl _
  | some t => exact moveItem_perm h

theorem setOnlyBy_id : (c : Collection) → SetOnlyBy ["id"] (Entity.id : c.Item → Value)
  | pages => Page.setOnlyBy_id
  | audios => Audio.setOnlyBy_id
  | notes => Note.setOnlyBy_id
  | elements _ => Element.setOnlyBy_id

/-- A merge that names no id keeps it. -/
theorem merge_id {c : Collection} {x y : c.Item} {fps : Number} {frameFields diff : List String}
    {changes : Changes} (h : Changes.merge x fps frameFields changes = .ok (y, diff))
    (hn : ∀ d ∈ changes, d.1 ≠ "id") : Entity.id y = Entity.id x :=
  Changes.merge_keeps (setOnlyBy_id c) h fun d hd => by simpa using hn d hd

section Update
variable {c : Collection} {id : Value} {changes : Changes} {fps : Number}
  {frameFields : List String} {move : Option Move} {mode : MoveMode} {u : Update c.Item}

/-- An update merges the changes into the first item with the id, puts the list with the merged
item in order, and gives the project with this list, unless nothing changed. -/
theorem update_eq_ok :
    c.update p id changes fps frameFields move mode = .ok u ↔
      ∃ before x after y diff t ys k, c.items p = .ok (before ++ x :: after) ∧
        FirstWithId id before x ∧
        c.aim (before ++ x :: after) before.length move mode = .ok t ∧
        Changes.merge x fps frameFields changes = .ok (y, diff) ∧
        arrange (before ++ y :: after) before.length t = .ok (ys, k) ∧
        (if diff.isEmpty && k == before.length
          then ⟨none, x, [], before.length, before.length⟩
          else ⟨some (c.replace p ys), y, diff, before.length, k⟩) = u := by
  unfold update
  simp only [bind_eq_ok, Prod.exists, require_eq_ok]
  constructor
  · rintro ⟨i, x, ⟨before, after, hxs, rfl, hfirst⟩, xs, hxs', t, ht, y, diff, hy, ys, k, hk, h⟩
    cases hxs.symm.trans hxs'
    rw [List.set_append_right _ _ (Nat.le_refl _), Nat.sub_self, List.set_cons_zero] at hk
    refine ⟨before, x, after, y, diff, t, ys, k, hxs, hfirst, ht, hy, hk, ?_⟩
    by_cases hnone : (diff.isEmpty && k == before.length) = true
    · rw [if_pos hnone] at h ⊢
      exact pure_eq_ok.mp h
    · rw [if_neg hnone] at h ⊢
      exact pure_eq_ok.mp h
  · rintro ⟨before, x, after, y, diff, t, ys, k, hxs, hfirst, ht, hy, hk, rfl⟩
    refine ⟨_, x, ⟨before, after, hxs, rfl, hfirst⟩, _, hxs, t, ht, y, diff, hy, ys, k, ?_, ?_⟩
    · rw [List.set_append_right _ _ (Nat.le_refl _), Nat.sub_self, List.set_cons_zero]
      exact hk
    · split <;> rfl

/-- An update of the first item with the id either found nothing to do, or gives the project with
the merged item among the others. -/
theorem update_cases (h : c.update p id changes fps frameFields move mode = .ok u) :
    ∃ before x after, c.items p = .ok (before ++ x :: after) ∧ FirstWithId id before x ∧
      ((u.item = x ∧ u.changed = false ∧ u.revised = none) ∨
        ∃ diff ys, Changes.merge x fps frameFields changes = .ok (u.item, diff) ∧
          ys.Perm (before ++ u.item :: after) ∧
          u.changed = true ∧ u.revised = some (c.replace p ys)) := by
  obtain ⟨before, x, after, y, diff, t, ys, k, hxs, hfirst, -, hy, hk, rfl⟩ := update_eq_ok.mp h
  refine ⟨before, x, after, hxs, hfirst, ?_⟩
  split
  · left
    simp [Update.changed]
  · rename_i hne
    right
    refine ⟨diff, ys, hy, arrange_perm hk, ?_, rfl⟩
    simp only [Update.changed, Bool.or_eq_true, Bool.not_eq_true', bne_iff_ne]
    simp only [Bool.and_eq_true, beq_iff_eq, not_and_or, Bool.not_eq_true] at hne
    exact hne

/-- An update that names no id keeps the ids of the items, if perhaps in another order. -/
theorem update_ids (h : c.update p id changes fps frameFields move mode = .ok u)
    (hn : ∀ d ∈ changes, d.1 ≠ "id") {xs : List c.Item} (hxs : c.items p = .ok xs) :
    u.changed = false ∨ ∃ ys, (ys.map Entity.id).Perm (xs.map Entity.id) ∧ u.changed = true ∧
      u.revised = some (c.replace p ys) := by
  obtain ⟨before, x, after, hitems, -, ⟨-, hchanged, -⟩ | ⟨diff, ys, hmerge, hperm, hchanged,
    hrevised⟩⟩ := update_cases h
  · exact .inl hchanged
  · obtain rfl := Except.ok.inj (hitems.symm.trans hxs)
    refine .inr ⟨ys, (hperm.map Entity.id).trans ?_, hchanged, hrevised⟩
    rw [List.map_append, List.map_append, List.map_cons, List.map_cons, merge_id hmerge hn]

end Update

end Collection

end Montage
