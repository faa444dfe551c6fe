/-
# Whole frames, and the one way around them

Reading a document makes integers of the durations of pages and the times of notes,
and the options for them give integers.  The playhead is read as it is:

    page, blank           the default duration, an integer
    page, copied          the duration of the page
    page, changed         an option
    note, new             an option, or the playhead
    note, changed         an option

So whatever lines make of a document, the durations of its pages are integers, and
the time of a note is one or the playhead of the document, which no line moves
(`whole_frames_of_reaches`).  A playhead between two frames does get into a note:
`note_between_frames`.
-/
import Montage.Proofs.Storable

namespace Montage

variable {p q : Project} {v : Value}

/-! ## Documents -/

namespace Document

/-- The pages and the notes of a project from a document were read one by one. -/
theorem read_of_project (h : project v = .ok p) :
    (∀ page ∈ p.pages, ∃ w, Document.page w = .ok page) ∧
      ∀ note ∈ p.notes, ∃ w, Document.note w = .ok note := by
  unfold project at h
  split at h
  · rename_i fields
    have h := invalidIfBad_eq_ok h
    unfold projectOf at h
    simp only [bind_eq_ok, pure_eq_ok] at h
    obtain ⟨c, hc, _, -, notes, hnotes, _, -, rfl⟩ := h
    refine ⟨fun page hpage => ?_, fun note hnote => ?_⟩
    · cases c with
      | none => cases hpage
      | some d =>
          have hd := composition?_eq_some hc
          unfold composition at hd
          simp only [bind_eq_ok, pure_eq_ok, error_bind, guard_eq_ok] at hd
          obtain ⟨_, -, _, -, -, _, -, _, -, _, -, pages, hpages, _, -, _, -, rfl⟩ := hd
          obtain ⟨w, -, hread⟩ := exists_of_mem_mapM hpages hpage
          exact ⟨w, hread⟩
    · obtain ⟨w, -, hread⟩ := exists_of_mem_mapM hnotes hnote
      exact ⟨w, hread⟩
  · cases h

end Document

/-! ## Lines -/

/-- Durations are in whole frames; so are the times of notes, but for the given one. -/
structure Project.Timed (t : Value) (p : Project) : Prop where
  pages : ∀ page ∈ p.pages, Keeps Page.Storage page ∧ page.noElements = .list []
  notes : ∀ note ∈ p.notes, Keeps (Note.Timed t) note
  currentTime : p.appState.currentTime = t

theorem Document.project_timed (h : project v = .ok p) : p.Timed p.appState.currentTime where
  pages page hpage := by
    obtain ⟨w, hread⟩ := (read_of_project h).1 page hpage
    exact page_stores hread
  notes note hnote := by
    obtain ⟨w, hread⟩ := (read_of_project h).2 note hnote
    have hstores := note_storable hread
    intro f
    have hf := hstores f
    cases f with
    | time => exact .inl hf
    | _ => exact hf
  currentTime := rfl

theorem Project.Origin.timed {ctx : Context} {name : String} {t : Value}
    (h : Project.Origin ctx p name q) (hp : p.Timed t) : q.Timed t where
  pages page hpage := (h.pages page hpage).storable hp.pages
  notes note hnote := (h.notes note hnote).timed hp.notes hp.currentTime
  currentTime := h.currentTime.trans hp.currentTime

theorem Leads.timed {t : Value} (h : Leads p q) (hp : p.Timed t) : q.Timed t := by
  obtain ⟨_, _, horigin⟩ := h.origin
  exact horigin.timed hp

theorem Reaches.timed {t : Value} (h : Reaches p q) (hp : p.Timed t) : q.Timed t := by
  induction h with
  | refl => exact hp
  | tail _ hleads ih => exact hleads.timed ih

namespace Document

/-- Whatever lines make of a document, durations of pages and times of notes are whole frames,
except that a note may stand at the playhead that the document gives; if this is a whole frame, or
none is given, there is no exception. -/
theorem whole_frames_of_reaches (hread : project v = .ok p) (h : Reaches p q) :
    (∀ page ∈ q.pages, ∃ n, page.duration = .int n) ∧
      (∀ note ∈ q.notes, (∃ n, note.time = .int n) ∨ note.time = p.appState.currentTime) ∧
      ((givenTime v = .null ∨ ∃ n, givenTime v = .int n) →
        ∀ note ∈ q.notes, ∃ n, note.time = .int n) := by
  have hq := h.timed (project_timed hread)
  refine ⟨fun page hpage => (hq.pages page hpage).1 .duration,
    fun note hnote => hq.notes note hnote .time, fun htime note hnote => ?_⟩
  obtain ⟨n, hn⟩ := currentTime_of_project hread htime
  have hkeeps := hq.notes note hnote
  rw [hn] at hkeeps
  exact Note.timed_int.mp hkeeps .time

/-- A document with nothing but an empty composition and a playhead. -/
def atPlayhead (t : Value) : Value :=
  .object [("composition", .object []), ("appState", .object [("currentTime", t)])]

/-- What a document with a playhead is read as. -/
def playing (t : Value) : Project := {
  id := ""
  name := .text "Untitled Project"
  composition := some {}
  appState := { currentTime := t } }

/-- A note at a whole frame. -/
theorem note_on_frame :
    project (atPlayhead (.int 40)) = .ok (playing (.int 40)) ∧
      ∃ q, Leads (playing (.int 40)) q ∧ q.notes.length = 1 ∧
        ∀ note ∈ q.notes, ∃ n, note.time = .int n := by
  have hread : project (atPlayhead (.int 40)) = .ok (playing (.int 40)) := rfl
  let o := Session.answer .counting {} (some (playing (.int 40))) "/new-note --text Hello" {}
  have hleads : Leads (playing (.int 40)) (o.revised.getD (playing (.int 40))) :=
    ⟨_, _, _, _, o.projectAfter_some _⟩
  refine ⟨hread, _, hleads, by decide +kernel, ?_⟩
  exact (whole_frames_of_reaches hread (.single hleads)).2.2 (.inr ⟨40, rfl⟩)

/-- A note between two frames: twelve and a half. -/
theorem note_between_frames :
    let t : Value := .float (Binary64.ofRatio false 25 2)
    project (atPlayhead t) = .ok (playing t) ∧
      ∃ q, Leads (playing t) q ∧ ∃ note ∈ q.notes, ¬ ∃ n, note.time = .int n := by
  intro t
  let o := Session.answer .counting {} (some (playing t)) "/new-note --text Hello" {}
  have hleads : Leads (playing t) (o.revised.getD (playing t)) :=
    ⟨_, _, _, _, o.projectAfter_some _⟩
  obtain ⟨note, hnote, hbetween⟩ : ∃ note ∈ (o.revised.getD (playing t)).notes,
      note.time.isWhole = false := by decide +kernel
  refine ⟨rfl, _, hleads, note, hnote, ?_⟩
  rintro ⟨n, hn⟩
  rw [hn] at hbetween
  cases hbetween

end Document

end Montage
