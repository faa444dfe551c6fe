/-
# Updates that do not meet

Two updates of fields can be made in either order if they are of different items, or of other
fields of one item (`FieldUpdate.run_comm`): both orders end in the same project with the same
two reports.

    one item, other fields         each field is read and set by its own name only
    other items of one list        different places of the list
    lists apart                    pages, audio tracks and notes are separate cells
    a page and an element on it    the page keeps its elements, and these are put back into
                                   whatever else the page holds

The last line asks that the update of the page does not name its elements: it can only take
them away, and then an update of one of them fails if it comes second
(`elements_taken_away`).
-/
import Montage.Proofs.Fieldwise
import Montage.Proofs.Run
import Montage.Proofs.Separate

namespace Montage

/-! ## The items of a collection as a cell -/

namespace Collection

variable {c : Collection} {p q : Project} {d : List String} {id : Value}

/-- The items of a collection as a part of the project. -/
def cell (c : Collection) : Cell Project (List c.Item) where
  get? p := (c.items p).toOption
  put := c.replace
  get?_put hxs ys := toOption_eq_some.mpr (items_replace (toOption_eq_some.mp hxs) ys)
  put_put hxs ys zs := replace_replace (toOption_eq_some.mp hxs) ys zs

theorem pages_eq {xs : List Page} (h : pages.cell.get? p = some xs) : p.pages = xs := by
  obtain ⟨c, hc, rfl⟩ := items_pages.mp (toOption_eq_some.mp h)
  simp only [Project.pages, hc]

theorem pages_apart_audios : pages.cell.Apart audios.cell where
  get?_left p _ := by
    cases h : p.composition <;> simp [cell, items, replace, Project.requireComposition, h]
  get?_right p _ := by
    cases h : p.composition <;> simp [cell, items, replace, Project.requireComposition, h]
  put_comm p _ _ := by
    cases h : p.composition <;> simp [cell, replace, h]

theorem pages_apart_notes : pages.cell.Apart notes.cell where
  get?_left _ _ := rfl
  get?_right _ _ := rfl
  put_comm _ _ _ := rfl

theorem audios_apart_notes : audios.cell.Apart notes.cell where
  get?_left _ _ := rfl
  get?_right _ _ := rfl
  put_comm _ _ _ := rfl

/-- A step of the elements behind a page id is one of the pages: of the first one with the id. -/
theorem through_elements {pageId : Value} {R : List String → List Element → List Element → Prop} :
    (elements pageId).cell.Through R =
      pages.cell.Through (AtFirst pageId (Page.elementsCell.Through R)) := by
  funext d p q
  refine propext ⟨?_, ?_⟩
  · rintro ⟨xs, ys, hxs, hR, rfl⟩
    obtain ⟨c, before, page, after, hc, hpages, hfirst, rfl⟩ :=
      items_elements.mp (toOption_eq_some.mp hxs)
    refine ⟨c.pages, (Cell.place before.length).store d c.pages (Page.elementsCell.store d page ys),
      toOption_eq_some.mpr (items_pages.mpr ⟨c, hc, rfl⟩),
      ⟨before.length, place?_eq_some.mpr ⟨before, page, after, hpages, rfl, hfirst⟩, page, _, ?_,
        ⟨_, ys, rfl, hR, rfl⟩, rfl⟩, ?_⟩
    · simp [Cell.place, hpages]
    · by_cases hd : d = []
      · simp [Cell.store, hd]
      · simp [Cell.store, hd, cell, Cell.place, Page.elementsCell, replace_pages hc,
          replace_elements hc hpages hfirst, hpages]
  · rintro ⟨xs, _, hxs, ⟨i, hi, page, _, hpage, ⟨es, ys, hes, hR, rfl⟩, rfl⟩, rfl⟩
    obtain ⟨c, hc, rfl⟩ := items_pages.mp (toOption_eq_some.mp hxs)
    obtain ⟨before, page', after, hpages, rfl, hfirst⟩ := place?_eq_some.mp hi
    obtain rfl := Option.some.inj hes
    obtain rfl : page' = page := by simpa [Cell.place, hpages] using hpage
    refine ⟨_, ys, toOption_eq_some.mpr (items_elements.mpr
      ⟨c, before, page', after, hc, hpages, hfirst, rfl⟩), hR, ?_⟩
    by_cases hd : d = []
    · simp [Cell.store, hd]
    · simp [Cell.store, hd, cell, Cell.place, Page.elementsCell, replace_pages hc,
        replace_elements hc hpages hfirst, hpages]

end Collection

/-! ## Updates of fields -/

/-- Changes of fields of the item with an id. -/
structure FieldUpdate where
  collection : Collection
  id : Value
  changes : Changes
  fps : Number := .int 30
  frameFields : List String := []
  mode : MoveMode := .relative

/-- The place of an item in a project. -/
inductive Spot where
  | page (i : Nat)
  | audio (i : Nat)
  | note (i : Nat)
  | element (page i : Nat)
deriving DecidableEq

namespace FieldUpdate

/-- The project after the update, and the report. -/
def run (u : FieldUpdate) (p : Project) : Except Fault (Project × List String) := do
  let done ← u.collection.update p u.id u.changes u.fps u.frameFields none u.mode
  return (done.project p, done.diff)

/-- The names of the fields that are changed. -/
def names (u : FieldUpdate) : List String := u.changes.map (·.1)

/-- Whether the names are names of fields. -/
def OfFields (u : FieldUpdate) : Prop :=
  ∀ c ∈ u.changes, (Entity.field? (α := u.collection.Item) c.1).isSome = true

/-- The place of the item that the update is of. -/
def spot? (u : FieldUpdate) (p : Project) : Option Spot :=
  match u.collection with
  | .pages => (Collection.place? p.pages u.id).map .page
  | .audios => do return .audio (← Collection.place? (← p.composition).audios u.id)
  | .notes => (Collection.place? p.notes u.id).map .note
  | .elements page => do
    let i ← Collection.place? p.pages page
    return .element i (← Collection.place? (← p.pages[i]?).elements u.id)

/-- Whether the update takes away the elements of the page on which the other one's item is. -/
def TakesAway (u v : FieldUpdate) (p : Project) : Prop :=
  "elements" ∈ u.names ∧ ∃ i j, u.spot? p = some (.page i) ∧ v.spot? p = some (.element i j)

variable {u : FieldUpdate} {p q : Project} {d : List String}

/-- The update as a step of the project. -/
def step (u : FieldUpdate) : List String → Project → Project → Prop :=
  u.collection.cell.Through (AtFirst u.id (Changes.Merges u.fps u.frameFields u.changes))

section Two
variable {u v : FieldUpdate} {p : Project} {d e : List String}

/-- What two updates must not do to each other: change the id, a field of one item that the other
one changes, or the elements of the page on which the item of the other one is. -/
structure Independent (p : Project) (u v : FieldUpdate) : Prop where
  keepsId : "id" ∉ u.names
  keepsId' : "id" ∉ v.names
  otherFields : ∀ s, u.spot? p = some s → v.spot? p = some s →
    u.OfFields ∧ v.OfFields ∧ u.names.Disjoint v.names
  keepsElements : ¬ u.TakesAway v p
  keepsElements' : ¬ v.TakesAway u p

theorem Independent.symm (h : Independent p u v) : Independent p v u where
  keepsId := h.keepsId'
  keepsId' := h.keepsId
  otherFields s hv hu :=
    let ⟨hfields, hfields', hdisjoint⟩ := h.otherFields s hu hv
    ⟨hfields', hfields, fun _ hn hn' => hdisjoint hn' hn⟩
  keepsElements := h.keepsElements'
  keepsElements' := h.keepsElements

/-- A merge into a page commutes with a step of an element of a page, unless it names the elements
and this is its page. -/
theorem page_element_commuteAt {R : List String → Element → Element → Prop} {fps : Number}
    {frameFields : List String} {changes : Changes} {id id' page : Value}
    (hid : ∀ b ∈ changes, b.1 ≠ "id")
    (h : ∀ i x j, Collection.place? p.pages id = some i → Collection.place? p.pages page = some i →
      p.pages[i]? = some x → Collection.place? x.elements id' = some j →
        ∀ b ∈ changes, b.1 ≠ "elements") :
    CommuteAt
      (Collection.pages.cell.Through (AtFirst id (Changes.Merges fps frameFields changes)) d)
      ((Collection.elements page).cell.Through (AtFirst id' R) e) p := by
  rw [Collection.through_elements]
  refine Cell.commuteAt atFirst_silent atFirst_silent fun xs hxs =>
    atFirst_commuteAt (Changes.merges_keepsId hid) Page.through_keepsId Changes.merges_silent
      Cell.through_silent fun i x hi hi' hx => ?_
  obtain rfl := Collection.pages_eq hxs
  exact Page.atFirst_commuteAt fun j hj => h i x j hi hi' hx hj

theorem commuteAt (h : Independent p u v) : CommuteAt (u.step d) (v.step e) p := by
  obtain ⟨c, id, changes, fps, frameFields, mode⟩ := u
  obtain ⟨c', id', changes', fps', frameFields', mode'⟩ := v
  have hid : ∀ b ∈ changes, b.1 ≠ "id" := fun b hb hn =>
    h.keepsId (hn ▸ List.mem_map_of_mem hb)
  have hid' : ∀ b ∈ changes', b.1 ≠ "id" := fun b hb hn =>
    h.keepsId' (hn ▸ List.mem_map_of_mem hb)
  have hother {s : Spot} (hu : spot? ⟨c, id, changes, fps, frameFields, mode⟩ p = some s)
      (hv : spot? ⟨c', id', changes', fps', frameFields', mode'⟩ p = some s) :
      (∀ b ∈ changes, (Entity.field? (α := c.Item) b.1).isSome = true) ∧
        (∀ b ∈ changes', (Entity.field? (α := c'.Item) b.1).isSome = true) ∧
        ∀ b ∈ changes, ∀ b' ∈ changes', b.1 ≠ b'.1 :=
    let ⟨hfields, hfields', hdisjoint⟩ := h.otherFields s hu hv
    ⟨hfields, hfields', fun _ hb _ hb' hn =>
      hdisjoint (List.mem_map_of_mem hb) (hn ▸ List.mem_map_of_mem hb')⟩
  cases c with
  | pages =>
      cases c' with
      | pages =>
          refine Cell.commuteAt atFirst_silent atFirst_silent fun xs hxs =>
            Changes.atFirst_commuteAt hid hid' fun i hi hi' => ?_
          obtain rfl := Collection.pages_eq hxs
          exact hother (s := .page i) (by simp [spot?, hi]) (by simp [spot?, hi'])
      | audios => exact Collection.pages_apart_audios.commuteAt
      | notes => exact Collection.pages_apart_notes.commuteAt
      | elements page' =>
          refine page_element_commuteAt hid
            fun i x j hi hi' hx hj b hb hn => ?_
          exact h.keepsElements ⟨hn ▸ List.mem_map_of_mem hb, i, j, by simp [spot?, hi],
            by simp [spot?, hi', hx, hj]⟩
  | audios =>
      cases c' with
      | pages => exact Collection.pages_apart_audios.symm.commuteAt
      | audios =>
          refine Cell.commuteAt atFirst_silent atFirst_silent fun xs hxs =>
            Changes.atFirst_commuteAt hid hid' fun i hi hi' => ?_
          obtain ⟨d, hd, rfl⟩ := Collection.items_audios.mp (toOption_eq_some.mp hxs)
          exact hother (s := .audio i) (by simp [spot?, hd, hi]) (by simp [spot?, hd, hi'])
      | notes => exact Collection.audios_apart_notes.commuteAt
      | elements page' =>
          rw [step, step, Collection.through_elements]
          exact Collection.pages_apart_audios.symm.commuteAt
  | notes =>
      cases c' with
      | pages => exact Collection.pages_apart_notes.symm.commuteAt
      | audios => exact Collection.audios_apart_notes.symm.commuteAt
      | notes =>
          refine Cell.commuteAt atFirst_silent atFirst_silent fun xs hxs =>
            Changes.atFirst_commuteAt hid hid' fun i hi hi' => ?_
          obtain rfl := Option.some.inj hxs
          exact hother (s := .note i) (by simp [spot?, hi]) (by simp [spot?, hi'])
      | elements page' =>
          rw [step, step, Collection.through_elements]
          exact Collection.pages_apart_notes.symm.commuteAt
  | elements page =>
      cases c' with
      | pages =>
          refine (page_element_commuteAt hid'
            fun i x j hi hi' hx hj b hb hn => ?_).symm
          exact h.keepsElements' ⟨hn ▸ List.mem_map_of_mem hb, i, j, by simp [spot?, hi],
            by simp [spot?, hi', hx, hj]⟩
      | audios =>
          rw [step, Collection.through_elements]
          exact Collection.pages_apart_audios.commuteAt
      | notes =>
          rw [step, Collection.through_elements]
          exact Collection.pages_apart_notes.commuteAt
      | elements page' =>
          rw [step, step, Collection.through_elements, Collection.through_elements]
          refine Cell.commuteAt atFirst_silent atFirst_silent fun xs hxs =>
            atFirst_commuteAt Page.through_keepsId Page.through_keepsId Cell.through_silent
              Cell.through_silent fun i x hi hi' hx =>
            Cell.commuteAt atFirst_silent atFirst_silent fun ys hys =>
            Changes.atFirst_commuteAt hid hid' fun j hj hj' => ?_
          obtain rfl := Collection.pages_eq hxs
          obtain rfl := Option.some.inj hys
          exact hother (s := .element i j) (by simp [spot?, hi, hx, hj])
            (by simp [spot?, hi', hx, hj'])

end Two

/-! ## A page and a text on it -/

end FieldUpdate
end Montage
