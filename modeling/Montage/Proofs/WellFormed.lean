/-
# Well-formed projects

A project is well formed if it has a composition, if its pages, its audio tracks,
its notes and the elements of all pages together can be told apart by their ids,
and if a page is selected, and with it none of its elements or one.  No command
line leads from a well-formed project to another one.

The invariant that is carried through the commands says moreover that the ids are
texts, which is what makes the ids found by a look-up those that are compared.
Each command keeps it for a reason of its own:

    an item is added          its id is new, on all pages for an element
    an item is changed        its id is no field that the command sets
    an item is removed        ids only go, and the selection with them
    pages are copied          every draw avoids the draws before it
    a page gets a new id      the new id is new, and the selection follows
-/
import Mathlib.Data.List.Flatten
import Mathlib.Data.List.Nodup
import Montage.Proofs.Decode
import Montage.Proofs.Distinct
import Montage.Proofs.Frame

namespace Montage

/-- One of the pages is selected, and none of the elements or one on this page. -/
def Selects (pages : List Page) (pageId elementId : Value) : Prop :=
  ∃ page ∈ pages, page.id = pageId ∧
    (elementId = .null ∨ ∃ e ∈ page.elements, e.id = elementId)

namespace Project

/-- Ids tell the parts of the project apart, and the selection names what is there. -/
structure WellFormed (p : Project) : Prop where
  composition : p.composition.isSome = true
  pageIds : p.pageIds.Nodup
  audioIds : p.audioIds.Nodup
  noteIds : p.noteIds.Nodup
  elementIds : p.elementIds.Nodup
  selection : Selects p.pages p.appState.selectedPageId p.appState.selectedElementId

/-- A well-formed project whose ids are texts. -/
structure Sound (p : Project) : Prop where
  composition : ∃ c, p.composition = some c
  pageIds : Distinct p.pageIds
  audioIds : Distinct p.audioIds
  noteIds : Distinct p.noteIds
  elementIds : Distinct p.elementIds
  selection : Selects p.pages p.appState.selectedPageId p.appState.selectedElementId

variable {p : Project} {c : Composition}

theorem sound_iff : p.Sound ↔ p.TextIds ∧ p.WellFormed := by
  constructor
  · intro h
    obtain ⟨c, hc⟩ := h.composition
    exact ⟨⟨h.pageIds.texts, h.elementIds.texts, h.audioIds.texts, h.noteIds.texts⟩,
      ⟨by simp [hc], h.pageIds.nodup, h.audioIds.nodup, h.noteIds.nodup, h.elementIds.nodup,
        h.selection⟩⟩
  · rintro ⟨htexts, h⟩
    exact ⟨Option.isSome_iff_exists.mp h.composition, ⟨htexts.pages, h.pageIds⟩,
      ⟨htexts.audios, h.audioIds⟩, ⟨htexts.notes, h.noteIds⟩, ⟨htexts.elements, h.elementIds⟩,
      h.selection⟩

namespace Sound

theorem textIds (h : p.Sound) : p.TextIds := (sound_iff.mp h).1

theorem pages (h : p.Sound) (hc : p.composition = some c) : Distinct (c.pages.map (·.id)) := by
  have hids := h.pageIds
  unfold Project.pageIds at hids
  rwa [pages_eq hc] at hids

theorem elements (h : p.Sound) (hc : p.composition = some c) :
    Distinct (Pages.elementIds c.pages) := by
  have hids := h.elementIds
  unfold Project.elementIds at hids
  rwa [pages_eq hc] at hids

theorem audios (h : p.Sound) (hc : p.composition = some c) :
    Distinct (c.audios.map (·.id)) := by
  have hids := h.audioIds
  simpa only [Project.audioIds, hc] using hids

theorem selects (h : p.Sound) (hc : p.composition = some c) :
    Selects c.pages p.appState.selectedPageId p.appState.selectedElementId := by
  have hselection := h.selection
  rwa [pages_eq hc] at hselection

/-! ## Other parts in a sound project -/

theorem withAudios (h : p.Sound) (hc : p.composition = some c) {audios : List Audio}
    (haudios : Distinct (audios.map (·.id))) :
    Sound { p with composition := some { c with audios } } := by
  have hpages := h.pages hc
  have helements := h.elements hc
  have hselects := h.selects hc
  exact ⟨⟨_, rfl⟩, hpages, haudios, h.noteIds, helements, hselects⟩

theorem withNotes (h : p.Sound) {notes : List Note} (hnotes : Distinct (notes.map (·.id))) :
    Sound { p with notes } :=
  ⟨h.composition, h.pageIds, h.audioIds, hnotes, h.elementIds, h.selection⟩

theorem withPages (h : p.Sound) (hc : p.composition = some c) {pages : List Page}
    {pageId elementId : Value} (hpages : Distinct (pages.map (·.id)))
    (helements : Distinct (Pages.elementIds pages)) (hselects : Selects pages pageId elementId) :
    Sound { p with
      composition := some { c with pages }
      appState := { p.appState with
        selectedPageId := pageId, selectedElementId := elementId } } := by
  have haudios := h.audios hc
  exact ⟨⟨_, rfl⟩, hpages, haudios, h.noteIds, helements, hselects⟩

theorem withSettings (h : p.Sound) (hc : p.composition = some c) {name : Value}
    {fps width height : Int} :
    Sound { p with name, composition := some { c with fps, width, height } } := by
  have hpages := h.pages hc
  have haudios := h.audios hc
  have helements := h.elements hc
  have hselects := h.selects hc
  exact ⟨⟨_, rfl⟩, hpages, haudios, h.noteIds, helements, hselects⟩

theorem withZoom (h : p.Sound) {zoomLevel : Value} :
    Sound { p with appState := { p.appState with zoomLevel } } :=
  ⟨h.composition, h.pageIds, h.audioIds, h.noteIds, h.elementIds, h.selection⟩

end Sound

end Project

/-! ## The elements of one page -/

section OnePage
variable {before after : List Page} {page page' : Page} {pageId elementId elementId' : Value}

theorem Pages.elementIds_split (before after : List Page) (page : Page) :
    elementIds (before ++ page :: after) =
      elementIds before ++ (page.elements.map (·.id) ++ elementIds after) := by
  simp [elementIds]

theorem Pages.ids_split (before after : List Page) (page : Page) (es : List Element) :
    (before ++ page.withElements es :: after).map (·.id) =
      (before ++ page :: after).map (·.id) := by
  simp [Page.withElements]

/-- The selection stays on a page whose elements change, if the selected element does. -/
theorem Selects.edit (h : Selects (before ++ page :: after) pageId elementId)
    (hid : page'.id = page.id)
    (hkeep : elementId' = .null ∨ (elementId' = elementId ∧
      ∀ e ∈ page.elements, e.id = elementId → ∃ e' ∈ page'.elements, e'.id = elementId)) :
    Selects (before ++ page' :: after) pageId elementId' := by
  obtain ⟨w, hw, hwid, helement⟩ := h
  by_cases hwp : w = page
  · subst hwp
    refine ⟨page', by simp, hid.trans hwid, ?_⟩
    rcases hkeep with hnull | ⟨rfl, hkeep⟩
    · exact .inl hnull
    · refine helement.imp_right ?_
      rintro ⟨e, he, heid⟩
      exact hkeep e he heid
  · have hmem : w ∈ before ++ page' :: after := by
      simp only [List.mem_append, List.mem_cons, hwp, false_or] at hw ⊢
      exact hw.imp_right .inr
    refine ⟨w, hmem, hwid, ?_⟩
    rcases hkeep with hnull | ⟨rfl, -⟩
    · exact .inl hnull
    · exact helement

end OnePage

namespace Project.Sound

variable {p : Project} {c : Composition} {before after : List Page} {page : Page}

/-- Other elements on one page, among which the selected one is if it was. -/
theorem withElements (h : p.Sound) (hc : p.composition = some c)
    (hpages : c.pages = before ++ page :: after) {es : List Element} {elementId : Value}
    (hids : Distinct (Pages.elementIds (before ++ page.withElements es :: after)))
    (hkeep : elementId = .null ∨ (elementId = p.appState.selectedElementId ∧
      ∀ e ∈ page.elements, e.id = p.appState.selectedElementId →
        ∃ e' ∈ es, e'.id = p.appState.selectedElementId)) :
    Sound { p with
      composition := some { c with pages := before ++ page.withElements es :: after }
      appState := { p.appState with selectedElementId := elementId } } := by
  have hpageIds := h.pages hc
  have hselects := h.selects hc
  rw [hpages] at hpageIds hselects
  refine h.withPages hc ?_ hids (hselects.edit rfl hkeep)
  rwa [Pages.ids_split]

theorem addElement (h : p.Sound) (hc : p.composition = some c)
    (hpages : c.pages = before ++ page :: after) {e : Element}
    (hfresh : Fresh c.elementIds [e.id]) :
    Sound { p with
      composition := some { c with
        pages := before ++ page.withElements (page.elements ++ [e]) :: after } } := by
  have hids : Distinct (e.id :: Pages.elementIds c.pages) := hfresh.join (h.elements hc)
  rw [hpages, Pages.elementIds_split] at hids
  refine h.withElements hc hpages (hids.perm ?_) (.inr ⟨rfl, fun d hd hid => ⟨d, ?_, hid⟩⟩)
  · rw [Pages.elementIds_split]
    simp only [Page.withElements, List.map_append, List.map_cons, List.map_nil,
      List.append_assoc, List.singleton_append]
    rw [← List.append_assoc, ← List.append_assoc]
    exact List.perm_middle
  · exact List.mem_append_left _ hd

theorem changeElements (h : p.Sound) (hc : p.composition = some c)
    (hpages : c.pages = before ++ page :: after) {es : List Element}
    (hperm : (es.map (·.id)).Perm (page.elements.map (·.id))) :
    Sound { p with
      composition := some { c with pages := before ++ page.withElements es :: after } } := by
  have hids := h.elements hc
  rw [hpages, Pages.elementIds_split] at hids
  refine h.withElements hc hpages (hids.perm ?_) (.inr ⟨rfl, fun d hd hid => ?_⟩)
  · rw [Pages.elementIds_split]
    exact (hperm.append_right _).append_left _
  · have hmem : p.appState.selectedElementId ∈ es.map (·.id) :=
      hperm.mem_iff.mpr (List.mem_map.mpr ⟨d, hd, hid⟩)
    obtain ⟨e, he, heid⟩ := List.mem_map.mp hmem
    exact ⟨e, he, heid⟩

theorem removeElement (h : p.Sound) (hc : p.composition = some c)
    (hpages : c.pages = before ++ page :: after) {id elementId : Value}
    (hselected : (elementId = p.appState.selectedElementId ∧
      p.appState.selectedElementId ≠ id) ∨ elementId = .null) {f : Element → Bool}
    (hf : ∀ e, f e = false → e.id = id) :
    Sound { p with
      composition := some { c with
        pages := before ++ page.withElements (page.elements.filter f) :: after }
      appState := { p.appState with selectedElementId := elementId } } := by
  have hids := h.elements hc
  rw [hpages, Pages.elementIds_split] at hids
  refine h.withElements hc hpages (hids.sublist ?_) ?_
  · rw [Pages.elementIds_split]
    exact ((List.filter_sublist.map _).append_right _).append_left _
  · rcases hselected with ⟨rfl, hne⟩ | rfl
    · refine .inr ⟨rfl, fun e he heid => ⟨e, List.mem_filter.mpr ⟨he, ?_⟩, heid⟩⟩
      cases hfe : f e with
      | true => rfl
      | false => exact absurd (heid.symm.trans (hf e hfe)) hne
    · exact .inl rfl

/-! ## The pages -/

/-- The page that the selection names is the selected one. -/
theorem selectedPage? (h : p.Sound) (hc : p.composition = some c) :
    ∃ w ∈ c.pages, p.selectedPage? = some w ∧ w.id = p.appState.selectedPageId ∧
      (p.appState.selectedElementId = .null ∨
        ∃ e ∈ w.elements, e.id = p.appState.selectedElementId) := by
  obtain ⟨w, hw, hwid, helement⟩ := h.selects hc
  have htext : (Entity.id w).IsText := (h.pages hc).texts _ (List.mem_map_of_mem hw)
  have hfind : c.pages.find? (Entity.hasId · p.appState.selectedPageId) = some w := by
    have hsome : (c.pages.find? (Entity.hasId · p.appState.selectedPageId)).isSome = true :=
      List.find?_isSome.mpr ⟨w, hw, (hasId_iff' htext).mpr hwid⟩
    obtain ⟨v, hv⟩ := Option.isSome_iff_exists.mp hsome
    have hvmem := List.mem_of_find?_eq_some hv
    obtain ⟨_, _, -, hfirst⟩ := find?_hasId_eq_some.mp hv
    have hvtext : (Entity.id v).IsText := (h.pages hc).texts _ (List.mem_map_of_mem hvmem)
    have hvid : v.id = w.id := ((hasId_iff' hvtext).mp hfirst.hasId).trans hwid.symm
    rw [hv, List.inj_on_of_nodup_map (h.pages hc).nodup hvmem hw hvid]
  refine ⟨w, hw, ?_, hwid, helement⟩
  unfold Project.selectedPage?
  rw [pages_eq hc]
  cases hpages : c.pages with
  | nil =>
      rw [hpages] at hw
      cases hw
  | cons first rest =>
      rw [hpages] at hfind
      dsimp only
      rw [hfind, Option.getD_some]

/-- New pages with new ids, of which the first one is selected. -/
theorem insertPages (h : p.Sound) (hc : p.composition = some c) {first : Page}
    {rest : List Page} (hpages : Fresh (c.pages.map (·.id)) ((first :: rest).map (·.id)))
    (helements : Fresh c.elementIds (Pages.elementIds (first :: rest))) (i : Nat) :
    Sound { p with
      composition := some { c with
        pages := c.pages.take i ++ (first :: rest) ++ c.pages.drop i }
      appState := { p.appState with
        selectedPageId := first.id, selectedElementId := .null } } := by
  have hperm := perm_put c.pages (first :: rest) i
  refine h.withPages hc ?_ ?_ ⟨first, by simp, rfl, .inl rfl⟩
  · refine (hpages.join (h.pages hc)).perm ?_
    rw [← List.map_append]
    exact hperm.map _
  · have hids : Distinct (Pages.elementIds ((first :: rest) ++ c.pages)) := by
      unfold Pages.elementIds
      rw [List.flatMap_append]
      exact helements.join (h.elements hc)
    exact hids.perm (hperm.flatMap_right _)

/-- A page changes, moves and may get a new id; the selection follows it. -/
theorem changePage (h : p.Sound) (hc : p.composition = some c)
    (hpages : c.pages = before ++ page :: after) {page' : Page} {pages : List Page}
    (hperm : pages.Perm (before ++ page' :: after)) (helements : page'.elements = page.elements)
    (hid : page'.id = page.id ∨ (page'.id.IsText ∧ page'.id ∉ c.pages.map (·.id)))
    {pageId : Value} (hselected : p.appState.selectedPageId = page.id → pageId = page'.id)
    (hother : p.appState.selectedPageId ≠ page.id → pageId = p.appState.selectedPageId) :
    Sound { p with
      composition := some { c with pages }
      appState := { p.appState with selectedPageId := pageId } } := by
  have hsplit : c.pages.Perm (page :: (before ++ after)) := by
    rw [hpages]
    exact List.perm_middle
  have hjoin : pages.Perm (page' :: (before ++ after)) := hperm.trans List.perm_middle
  obtain ⟨htext, hnew, hothers⟩ := ((h.pages hc).perm (hsplit.map _).symm).uncons
  refine h.withPages hc ?ids ?elements ?selection
  case ids =>
    have htext' : page'.id.IsText := by
      rcases hid with hid | ⟨htext', -⟩
      · rwa [hid]
      · exact htext'
    have hnew' : page'.id ∉ (before ++ after).map (·.id) := by
      rcases hid with hid | ⟨-, hfree⟩
      · rwa [hid]
      · exact fun hmem => hfree ((hsplit.map _).mem_iff.mpr (List.mem_cons_of_mem _ hmem))
    exact (hothers.cons htext' hnew').perm (hjoin.map _)
  case elements =>
    have hids := (h.elements hc).perm (hsplit.flatMap_right _).symm
    refine Distinct.perm ?_ (hjoin.flatMap_right _)
    rw [List.flatMap_cons] at hids ⊢
    rwa [helements]
  case selection =>
    obtain ⟨w, hw, hwid, hselects⟩ := h.selects hc
    rcases List.mem_cons.mp (hsplit.mem_iff.mp hw) with rfl | hw
    · refine ⟨page', hjoin.mem_iff.mpr List.mem_cons_self, (hselected hwid.symm).symm, ?_⟩
      rwa [helements]
    · have hne : p.appState.selectedPageId ≠ page.id := fun heq =>
        hnew (List.mem_map.mpr ⟨w, hw, hwid.trans heq⟩)
      refine ⟨w, hjoin.mem_iff.mpr (List.mem_cons_of_mem _ hw), ?_, hselects⟩
      rw [hother hne, hwid]

/-- Some pages go; a page that remains is selected, the same one as before unless it went. -/
theorem removePages (h : p.Sound) (hc : p.composition = some c) {pages : List Page}
    (hsub : pages.Sublist c.pages) {pageId elementId : Value}
    (hselects : Selects pages pageId elementId) :
    Sound { p with
      composition := some { c with pages }
      appState := { p.appState with
        selectedPageId := pageId, selectedElementId := elementId } } :=
  h.withPages hc ((h.pages hc).sublist (hsub.map _)) ((h.elements hc).sublist (hsub.flatMap _))
    hselects

end Project.Sound

end Montage
