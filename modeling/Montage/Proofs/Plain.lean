/-
# What was read can be written

Being plain is a property of values that passes from a document to the values in the
project that is read from it (`project_plain`), and from these to the document that is
written (`Project.Plain.document`): the keys of a record differ, those of its unknown
entries from the known ones too.  So what was read can be written, and what was written
can be read.
-/
import Montage.Proofs.Each
import Montage.Proofs.Json

namespace Montage

theorem Value.Plain.hereditary : Hereditary Plain where
  null := .null
  bool := .bool
  int := .int
  float _ := .float _
  text := .text
  list := ⟨fun | .list h => h, .list⟩
  object := .object
  entries := fun | .object _ h => h
  filter _ := fun
    | .object hnodup h => .object ((List.filter_sublist.map _).nodup hnodup)
        fun f hf => h f (List.mem_filter.mp hf).1

/-- Every value in the project is plain. -/
structure Project.Plain (p : Project) : Prop where
  name : p.name.Plain
  pages : ∀ page ∈ p.pages, Keeps (fun _ => Value.Plain) page
  elements : ∀ page ∈ p.pages, ∀ e ∈ page.elements, Keeps (fun _ => Value.Plain) e
  audios : ∀ c, p.composition = some c → ∀ a ∈ c.audios, Keeps (fun _ => Value.Plain) a
  notes : ∀ note ∈ p.notes, Keeps (fun _ => Value.Plain) note
  selectedPage : p.appState.selectedPageId.Plain
  selectedElement : p.appState.selectedElementId.Plain
  currentTime : p.appState.currentTime.Plain
  zoomLevel : p.appState.zoomLevel.Plain
  extra : ∀ f ∈ p.appState.extra, f.2.Plain

theorem Project.plain_iff {p : Project} : p.Plain ↔ p.Each Value.Plain := by
  constructor
  · rintro ⟨hname, hpages, helements, haudios, hnotes, hpage, helement, htime, hzoom, hextra⟩
    exact ⟨hname, hpages, helements, haudios, hnotes, hpage, helement, htime, hzoom, hextra⟩
  · rintro ⟨hname, hpages, helements, haudios, hnotes, hpage, helement, htime, hzoom, hextra⟩
    exact ⟨hname, hpages, helements, haudios, hnotes, hpage, helement, htime, hzoom, hextra⟩

/-- A plain project is written as a plain value. -/
theorem Project.Plain.document {p : Project} (h : p.Plain) (hextra : p.KeepsExtra) :
    (Document.ofProject p).Plain :=
  Document.ofProject_each Value.Plain.hereditary (Project.plain_iff.mp h) hextra

namespace Document

variable {v : Value} {p : Project}

/-- A project that was read from a plain value is plain. -/
theorem project_plain (h : project v = .ok p) (hv : v.Plain) : p.Plain :=
  Project.plain_iff.mpr (project_each Value.Plain.hereditary h hv)

/-- A project that was read from a plain value is written as one. -/
theorem plain_ofProject (h : project v = .ok p) (hv : v.Plain) : (ofProject p).Plain :=
  (project_plain h hv).document (project_storable h hv.keyed).keepsExtra

end Document

end Montage
