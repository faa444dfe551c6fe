/-
# Ids

The editor compares ids by value, and an id may be any value: two ids that are
not texts can be the same without being equal.  An id that a document or a draw
gives is a text, and against a text nothing is the same but that very text
(`same_text_iff`, `text_same_iff`).

A draw gives an id that is not taken (`fresh_not_mem`).  Nothing is assumed of the
source: a suffix that comes again is dropped again.
-/
import Montage.Fresh
import Montage.Edit.Collection
import Montage.Proofs.Peel

namespace Montage

namespace Value

theorem isText_iff {v : Value} {s : String} : v.isText s = true ↔ v = .text s := by
  cases v <;> simp [isText]

theorem same_text_iff {v : Value} {s : String} : v.same (.text s) = true ↔ v = .text s := by
  cases v <;> simp [same, sameScalar, number?]

theorem text_same_iff {v : Value} {s : String} :
    (Value.text s).same v = true ↔ v = .text s := by
  cases v with
  | text t =>
      rw [text.injEq, eq_comm (a := t)]
      simp [same, sameScalar]
  | _ => simp [same, sameScalar, number?]

/-- The value is a text. -/
def IsText (v : Value) : Prop := ∃ s, v = .text s

theorem isText_text (s : String) : (Value.text s).IsText := ⟨s, rfl⟩

instance : DecidablePred IsText
  | text s => isTrue (isText_text s)
  | null | bool _ | int _ | float _ | bytes _ | list _ | object _ =>
    isFalse fun ⟨_, h⟩ => nomatch h

theorem IsText.same_iff {v w : Value} (h : w.IsText) : v.same w = true ↔ v = w := by
  obtain ⟨s, rfl⟩ := h
  exact same_text_iff

theorem IsText.same_iff' {v w : Value} (h : v.IsText) : v.same w = true ↔ v = w := by
  obtain ⟨s, rfl⟩ := h
  rw [text_same_iff, eq_comm]

/-- Texts can be looked up by hashing. -/
theorem requireHashable_texts {vs : List Value} (h : ∀ v ∈ vs, v.IsText) :
    requireHashable vs = .ok () := by
  have hnone : vs.find? (!·.isHashable) = none := by
    refine List.find?_eq_none.mpr fun v hv => ?_
    obtain ⟨s, rfl⟩ := h v hv
    simp [isHashable]
  rw [requireHashable, hnone]

end Value

section Entity
variable {α : Type} [Entity α] {x : α} {id : Value}

theorem hasId_iff (h : id.IsText) : Entity.hasId x id = true ↔ Entity.id x = id := h.same_iff

theorem hasId_iff' (h : (Entity.id x).IsText) : Entity.hasId x id = true ↔ Entity.id x = id :=
  h.same_iff'

theorem not_mem_ids {xs : List α} (h : id.IsText) (hnone : ∀ x ∈ xs, Entity.hasId x id = false) :
    id ∉ xs.map Entity.id := by
  intro hmem
  obtain ⟨x, hx, hxid⟩ := List.mem_map.mp hmem
  have hno := hnone x hx
  rw [(hasId_iff h).mpr hxid] at hno
  cases hno

end Entity

/-! ## The ids of a project -/

namespace Project

/-- The ids of the pages. -/
def pageIds (p : Project) : List Value := p.pages.map (·.id)

/-- The ids of the elements, page by page. -/
def elementIds (p : Project) : List Value := p.pages.flatMap fun page => page.elements.map (·.id)

/-- The ids of the audio tracks, none without a composition. -/
def audioIds (p : Project) : List Value :=
  match p.composition with
  | none => []
  | some c => c.audios.map (·.id)

/-- The ids of the notes. -/
def noteIds (p : Project) : List Value := p.notes.map (·.id)

/-- Every id in the project is a text, as the ids from documents and draws are. -/
structure TextIds (p : Project) : Prop where
  pages : ∀ id ∈ p.pageIds, id.IsText
  elements : ∀ id ∈ p.elementIds, id.IsText
  audios : ∀ id ∈ p.audioIds, id.IsText
  notes : ∀ id ∈ p.noteIds, id.IsText

end Project

/-! ## Draws -/

namespace IdSource

variable {source : IdSource} {word id : String} {taken : List Value} {n n' : Nat}

theorem search_not_mem {left : Nat} (h : source.search word taken left n = (.ok id, n')) :
    Value.text id ∉ taken := by
  induction left generalizing n with
  | zero => cases h
  | succ k ih =>
      simp only [search] at h
      split at h
      · exact ih h
      · rename_i hfree
        cases h
        intro hmem
        exact hfree (List.any_eq_true.mpr ⟨_, hmem, Value.isText_iff.mpr rfl⟩)

theorem candidate_ne_empty : source.candidate word n ≠ "" := by
  intro h
  have hlist := congrArg String.toList h
  simp [candidate] at hlist

theorem search_ne_empty {left : Nat} (h : source.search word taken left n = (.ok id, n')) :
    id ≠ "" := by
  induction left generalizing n with
  | zero => cases h
  | succ k ih =>
      simp only [search] at h
      split at h
      · exact ih h
      · cases h
        exact candidate_ne_empty

theorem fresh_not_mem (h : source.fresh word taken n = (.ok id, n')) : Value.text id ∉ taken :=
  search_not_mem h

end IdSource

/-- A drawn id is not among the taken ones. -/
theorem drawId_not_mem {source : IdSource} {word id : String} {taken : List Value} {n n' : Nat}
    (h : Yields (drawId source word taken) n id n') : Value.text id ∉ taken :=
  IdSource.fresh_not_mem h

theorem drawId_ne_empty {source : IdSource} {word id : String} {taken : List Value} {n n' : Nat}
    (h : Yields (drawId source word taken) n id n') : id ≠ "" :=
  IdSource.search_ne_empty h

end Montage
