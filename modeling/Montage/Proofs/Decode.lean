/-
# Projects from documents

Reading a document turns every id into a text, whatever stands there: the ids of
a project that was read are texts (`project_textIds`), though they need not be
distinct.
-/
import Montage.Document.Decode
import Montage.Proofs.Ids

namespace Montage.Document

variable {v : Value}

theorem element_id {e : Element} (h : element v = .ok e) : e.id.IsText := by
  unfold element at h
  simp only [bind_eq_ok, pure_eq_ok] at h
  obtain ⟨_, -, _, -, _, -, id, -, rfl⟩ := h
  exact Value.isText_text _

theorem page_ids {page : Page} (h : Document.page v = .ok page) :
    page.id.IsText ∧ ∀ e ∈ page.elements, e.id.IsText := by
  unfold Document.page at h
  simp only [bind_eq_ok, pure_eq_ok] at h
  obtain ⟨id, -, fields, -, _, -, vs, -, es, hes, rfl⟩ := h
  refine ⟨Value.isText_text _, fun e he => ?_⟩
  obtain ⟨w, -, hw⟩ := exists_of_mem_mapM hes he
  exact element_id hw

theorem audio_id {a : Audio} (h : audio v = .ok a) : a.id.IsText := by
  unfold audio at h
  simp only [bind_eq_ok, pure_eq_ok] at h
  obtain ⟨_, -, id, -, _, -, rfl⟩ := h
  exact Value.isText_text _

theorem note_id {note : Note} (h : Document.note v = .ok note) : note.id.IsText := by
  unfold Document.note at h
  simp only [bind_eq_ok, pure_eq_ok] at h
  obtain ⟨id, -, _, -, _, -, rfl⟩ := h
  exact Value.isText_text _

theorem composition_ids {c : Composition} (h : composition v = .ok c) :
    (∀ page ∈ c.pages, page.id.IsText ∧ ∀ e ∈ page.elements, e.id.IsText) ∧
      ∀ a ∈ c.audios, a.id.IsText := by
  unfold composition at h
  simp only [bind_eq_ok, pure_eq_ok, error_bind, guard_eq_ok] at h
  obtain ⟨_, -, fps, -, -, _, -, _, -, _, -, pages, hpages, _, -, audios, haudios, rfl⟩ := h
  constructor
  · intro page hpage
    obtain ⟨w, -, hw⟩ := exists_of_mem_mapM hpages hpage
    exact page_ids hw
  · intro a ha
    obtain ⟨w, -, hw⟩ := exists_of_mem_mapM haudios ha
    exact audio_id hw

theorem composition?_eq_some {c : Composition} (h : composition? v = .ok (some c)) :
    composition v = .ok c := by
  unfold composition? at h
  split at h
  · cases h
  · obtain ⟨_, hread, hc⟩ := map_eq_ok.mp h
    cases hc
    exact hread

theorem invalidIfBad_eq_ok {α : Type} {x : Except Fault α} {a : α} (h : invalidIfBad x = .ok a) :
    x = .ok a := by
  cases x with
  | ok b => exact h
  | error f =>
      cases f with
      | problem p => cases h
      | _ =>
          simp only [invalidIfBad, asInvalid] at h
          split at h <;> cases h

/-- Every id of a project that was read is a text. -/
theorem project_textIds {p : Project} (h : project v = .ok p) : p.TextIds := by
  unfold project at h
  split at h
  · rename_i fields
    have h := invalidIfBad_eq_ok h
    unfold projectOf at h
    simp only [bind_eq_ok, pure_eq_ok] at h
    obtain ⟨c, hc, _, -, notes, hnotes, state, -, rfl⟩ := h
    have hnotes : ∀ note ∈ notes, note.id.IsText := by
      intro note hnote
      obtain ⟨w, -, hw⟩ := exists_of_mem_mapM hnotes hnote
      exact note_id hw
    cases c with
    | none =>
        exact ⟨by simp [Project.pageIds, Project.pages],
          by simp [Project.elementIds, Project.pages], by simp [Project.audioIds],
          by simpa [Project.noteIds] using hnotes⟩
    | some c =>
        obtain ⟨hpages, haudios⟩ := composition_ids (composition?_eq_some hc)
        constructor
        · simpa [Project.pageIds, Project.pages] using fun page hpage => (hpages page hpage).1
        · intro id hid
          obtain ⟨page, hpage, hid⟩ := List.mem_flatMap.mp hid
          obtain ⟨e, he, rfl⟩ := List.mem_map.mp hid
          exact (hpages page hpage).2 e he
        · simpa [Project.audioIds] using haudios
        · simpa [Project.noteIds] using hnotes
  · cases h

end Montage.Document
