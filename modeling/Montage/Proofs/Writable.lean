/-
# What a session leaves can be written

Every command keeps the values in a project plain: what a line gives is definite, a
stored file lends an element nothing but numbers, a drawn id is a text, and the rest
was there before.  Nor does a command touch the unknown entries.  So whatever lines
make of a project that was read from a file, there is a text to save it in
(`fileText_of_reaches`), and as the records of the file storage may hold bytes, this
is not for granted.
-/
import Montage.Proofs.File
import Montage.Proofs.Storable

namespace Montage

/-! ## Plain values -/

namespace Value

variable {v : Value}

theorem Definite.plain (h : v.Definite) : v.Plain := by
  cases h with
  | bool b => exact .bool b
  | int n => exact .int n
  | float => exact .float _
  | text s => exact .text s

theorem IsNumber.plain (h : v.IsNumber) : v.Plain := by
  obtain ⟨_, h⟩ := h
  cases v with
  | bool b => exact .bool b
  | int n => exact .int n
  | float x => exact .float x
  | _ => cases h

end Value

theorem setters_offers : ∀ g ∈ setters, g.Offers := by
  simp only [setters, List.forall_mem_cons]
  exact ⟨Tracks.createGrammar_offers, Tracks.changeGrammar_offers,
    Elements.changeGrammar_offers, Notes.createGrammar_offers, Notes.changeGrammar_offers,
    Pages.changeGrammar_offers, List.forall_mem_nil _⟩

section Parts
variable {ctx : Context} {p : Project} {name : String}

namespace Elements

theorem Placed.plain {e f : Element} (h : Placed e f) (he : Keeps (fun _ => Value.Plain) e) :
    Keeps (fun _ => Value.Plain) f := by
  obtain ⟨left, top, width, height, hnumber, rfl⟩ := h
  have hplace : ∀ v ∈ [left, top, width, height], v.Plain := fun v hv => (hnumber v hv).plain
  intro f
  have hf := he f
  cases f with
  | left => exact hplace left (by simp)
  | top => exact hplace top (by simp)
  | width => exact hplace width (by simp)
  | height => exact hplace height (by simp)
  | _ => exact hf

end Elements

/-- What a line gives is plain, and a new element holds nothing else. -/
theorem Project.Plain.gives (hp : p.Plain) : ctx.Gives p name Value.Plain where
  arguments g hg _ c args hreads f hf :=
    ((setters_offers g hg).of_parse hreads.args f hf).definite.plain
  element r hr _ c args e hreads hdraft := by
    have hargs := fun f hf =>
      ((Elements.grammar_offers hr).of_parse hreads.args f hf).definite.plain
    have hsource : ∀ page ∈ c.pages, ∀ e ∈ page.elements, Keeps (fun _ => Value.Plain) e :=
      fun page hpage => hp.elements page (Project.pages_eq hreads.composition ▸ hpage)
    exact Elements.draft_keeps hsource (Elements.defaultText_each Value.Plain.hereditary)
      (fun _ hplaced => hplaced.plain (Elements.plainMedium_each Value.Plain.hereditary r.kind))
      (fun _ _ he hplaced => hplaced.plain he) (Changes.fit_each hargs) hdraft

/-- A command keeps the values in a project plain. -/
theorem Project.Origin.plain {q : Project} (h : Project.Origin ctx p name q) (hp : p.Plain) :
    q.Plain :=
  Project.plain_iff.mpr (h.each Value.Plain.hereditary (Project.plain_iff.mp hp) hp.gives)

end Parts

/-! ## Sessions -/

/-- The project has a document that can be written. -/
structure Project.Writable (p : Project) : Prop where
  plain : p.Plain
  extra : p.KeepsExtra

theorem Session.answer_writable (ids : IdSource) (collaborators : Collaborators) {p : Project}
    (hp : p.Writable) (line : String) (j : Journal) :
    ((answer ids collaborators (some p) line j).revised.getD p).Writable := by
  rcases answer_cases ids collaborators (some p) line j with hrefuses | ⟨_, _, -, -, heffect⟩
  · rw [hrefuses.revised, Option.getD_none]
    exact hp
  · have horigin := heffect.origin (p := p) rfl
    exact ⟨horigin.plain hp.plain, horigin.keepsExtra hp.extra⟩

theorem Reaches.writable {p q : Project} (h : Reaches p q) (hp : p.Writable) : q.Writable := by
  induction h with
  | refl => exact hp
  | tail _ hstep ih =>
      obtain ⟨ids, collaborators, line, j, hstep⟩ := hstep
      rw [Outcome.projectAfter_some, Option.some.injEq] at hstep
      exact hstep ▸ Session.answer_writable ids collaborators ih line j

/-- A new project has a single blank page, which is selected. -/
theorem newProject_eq {ids : IdSource} {name : Value} {fps width height : Int} {n k : Nat}
    {p : Project} (h : Yields (newProject ids name fps width height) n p k) :
    ∃ (id pageId : String) (page : Page),
      page = { id := .text pageId, name := .text "Page 1", duration := defaultFrames fps } ∧
      p = {
        id, name
        composition := some { fps, width, height, pages := [page] }
        appState := { selectedPageId := .text pageId } } := by
  unfold newProject blankPage at h
  simp only [yields_bind, yields_pure] at h
  obtain ⟨_, _, ⟨pageId, _, -, rfl, -⟩, id, _, -, rfl, -⟩ := h
  exact ⟨id, pageId, _, rfl, rfl⟩

section NewProject
variable {ids : IdSource} {name : Value} {fps width height : Int} {n k : Nat} {p : Project}

theorem newProject_keepsExtra (h : Yields (newProject ids name fps width height) n p k) :
    p.KeepsExtra := by
  obtain ⟨id, pageId, page, rfl, rfl⟩ := newProject_eq h
  refine ⟨?elements, ⟨List.nodup_nil, nofun⟩⟩
  case elements =>
    intro page hpage
    obtain rfl := List.mem_singleton.mp hpage
    exact nofun

end NewProject

namespace Document

theorem fileText_eq {p : Project} (h : p.Writable) :
    fileText p = .ok (Json.print (ofProject p) ++ "\n") := by
  rw [fileText, Json.write_eq (h.plain.document h.extra)]
  rfl

/-- What is read from a file can be written. -/
theorem writable_of_load {size : Nat} {text : String} {p : Project}
    (h : load size text = .ok p) : p.Writable := by
  unfold load parse at h
  obtain ⟨-, h⟩ := guard_eq_ok.mp h
  split at h
  · rename_i v hread
    have hplain := Json.plain_of_read hread
    exact ⟨project_plain h hplain, (project_storable h hplain.keyed).keepsExtra⟩
  · cases h

/-- Whatever lines make of a project that was read from a file, there is a text to save it in. -/
theorem fileText_of_reaches {size : Nat} {text : String} {p q : Project}
    (h : load size text = .ok p) (hq : Reaches p q) :
    fileText q = .ok (Json.print (ofProject q) ++ "\n") :=
  fileText_eq (hq.writable (writable_of_load h))

end Document

end Montage
