/-
# What a session leaves can be stored

Every command keeps a project `Storable`: the ids that it draws or takes from the
line are texts, a new element has a place, frames are integers, and no command
touches the unknown entries.  One thing is passed on from outside: a note without a
time is put at the playhead, so the playhead must be an integer, and as no command
moves it, it is one for the whole session as soon as the document has none other.

With the round trip of the codec, whatever a session leaves is read back as it is
(`project_ofProject_of_reaches`).
-/
import Montage.Proofs.Codec
import Montage.Proofs.Definite
import Montage.Proofs.Range

namespace Montage

/-! ## What the options store -/

theorem Tracks.storage_restricts : Restricts ["id"] Audio.Storage := by
  intro f hf v
  cases f <;> trivial

theorem Elements.storage_restricts :
    Restricts ["id", "left", "top", "width", "height"] Element.Storage := by
  intro f hf v
  cases f <;> trivial

theorem Notes.storage_restricts : Restricts ["id", "time"] Note.Storage := by
  intro f hf v
  cases f <;> trivial

theorem Pages.storage_restricts : Restricts ["id", "duration"] Page.Storage := by
  intro f hf v
  cases f <;> trivial

section Converters
variable {raw : String} {fps : Number} {v : Value}

theorem Converter.text_isText (h : text raw fps = .ok v) : v.IsText := by
  cases h
  exact Value.isText_text raw

theorem Converter.duration_isInt (h : duration raw fps = .ok v) : ∃ n, v = .int n := by
  obtain ⟨n, hv, -⟩ := duration_eq_ok h
  exact ⟨n, hv⟩

end Converters

namespace Tracks

theorem createGrammar_stores : createGrammar.Fits Audio.Storage :=
  .of_restricts storage_restricts nofun rfl

theorem changeGrammar_stores : changeGrammar.Fits Audio.Storage := by
  refine .of_restricts storage_restricts (fun o ho => ?_) rfl
  obtain rfl := List.mem_singleton.mp ho
  exact .taking (f := .id) rfl fun _ _ _ => Converter.text_isText

end Tracks

namespace Elements

theorem placeOptions_store : ∀ o ∈ geometryOptions.take 4, o.Fits Element.Storage := by
  simp only [geometryOptions, List.take, List.forall_mem_cons]
  refine ⟨?left, ?top, ?width, ?height, List.forall_mem_nil _⟩
  case left => exact .taking (f := .left) rfl Converter.definite_number.ne_null
  case top => exact .taking (f := .top) rfl Converter.definite_number.ne_null
  case width => exact .taking (f := .width) rfl Converter.definite_positiveNumber.ne_null
  case height => exact .taking (f := .height) rfl Converter.definite_positiveNumber.ne_null

theorem grammar_stores {r : Recipe} (hr : r ∈ recipes) : r.grammar.Fits Element.Storage := by
  simp only [recipes, List.mem_cons, List.not_mem_nil, or_false] at hr
  rcases hr with rfl | rfl | rfl
  all_goals
    exact .of_restricts storage_restricts
      (show ∀ o ∈ geometryOptions.take 4, _ from placeOptions_store) rfl

theorem changeGrammar_stores : changeGrammar.Fits Element.Storage := by
  refine .of_restricts storage_restricts (fun o ho => ?_) rfl
  rcases List.mem_cons.mp ho with rfl | ho
  · exact .taking (f := .id) rfl fun _ _ _ => Converter.text_isText
  · exact placeOptions_store o ho

end Elements

namespace Notes

theorem createGrammar_stores : createGrammar.Fits Note.Storage := by
  refine .of_restricts storage_restricts (fun o ho => ?_) rfl
  obtain rfl := List.mem_singleton.mp ho
  exact .taking (f := .time) rfl fun _ _ _ => Converter.duration_isInt

theorem changeGrammar_stores : changeGrammar.Fits Note.Storage := by
  refine .of_restricts storage_restricts (fun o ho => ?_) rfl
  rcases List.mem_cons.mp ho with rfl | ho
  · exact .taking (f := .id) rfl fun _ _ _ => Converter.text_isText
  · obtain rfl := List.mem_singleton.mp ho
    exact .taking (f := .time) rfl fun _ _ _ => Converter.duration_isInt

end Notes

theorem Pages.changeGrammar_stores : changeGrammar.Fits Page.Storage := by
  refine .of_restricts storage_restricts (fun o ho => ?_) rfl
  rcases List.mem_cons.mp ho with rfl | ho
  · exact .taking (f := .id) rfl fun _ _ _ => Converter.text_isText
  · obtain rfl := List.mem_singleton.mp ho
    exact .taking (f := .duration) rfl fun _ _ _ => Converter.duration_isInt

/-! ## What no option touches -/

theorem Element.setOnlyBy_extra : SetOnlyBy ["extra"] Element.extra := by
  intro e f v e' h hf
  cases f with
  | extra => exact absurd (List.mem_singleton.mpr rfl) hf
  | kind => cases h
  | textAlign =>
      obtain ⟨a, -, h⟩ := bind_eq_ok.mp h
      cases h
      rfl
  | _ =>
      cases h
      rfl

theorem Page.setOnlyBy_noElements : SetOnlyBy ["elements"] Page.noElements := by
  intro e f v e' h hf
  cases f with
  | elements => exact absurd (List.mem_singleton.mpr rfl) hf
  | _ =>
      cases h
      rfl

/-- A field that the grammar does not have is none of the arguments. -/
theorem Grammar.not_given {g : Grammar} {tokens : List String} {fps : Number} {args : Arguments}
    {name : String} (h : g.parse tokens fps = .ok args) (hname : name ∉ g.fields)
    (excluded : List String) : ∀ c ∈ args.except excluded, c.1 ∉ [name] := by
  intro c hc hmem
  have hfield := mem_fields_of_parse h c (Arguments.mem_of_mem_except hc)
  exact hname (List.mem_singleton.mp hmem ▸ hfield)

/-! ## New elements -/

namespace Elements

theorem defaultText_stores : Keeps Element.Storage defaultText := by
  intro f
  cases f with
  | id => exact Value.isText_text _
  | left | top | width | height => exact nofun
  | _ => trivial

theorem placed_stores {e f : Element} (h : Placed e f) (hid : e.id.IsText) :
    Keeps Element.Storage f := by
  obtain ⟨left, top, width, height, hnumber, rfl⟩ := h
  have hplace : ∀ v ∈ [left, top, width, height], v ≠ .null := fun v hv => (hnumber v hv).ne_null
  intro f
  cases f with
  | id => exact hid
  | left => exact hplace left (by simp)
  | top => exact hplace top (by simp)
  | width => exact hplace width (by simp)
  | height => exact hplace height (by simp)
  | _ => trivial

theorem keepsExtra_of_empty {e : Element} (h : e.extra = {}) : e.KeepsExtra :=
  ⟨[], ⟨List.nodup_nil, nofun⟩, h⟩

theorem Placed.keepsExtra {e f : Element} (h : Placed e f) (he : e.KeepsExtra) :
    f.KeepsExtra := by
  obtain ⟨_, _, _, _, -, rfl⟩ := h
  exact he

theorem draft_keepsExtra {c : Composition} {r : Recipe} {files : Option FileStorage}
    {args : Arguments} {e : Element} (hargs : ∀ c ∈ args.except ["copy"], c.1 ∉ ["extra"])
    (hsource : ∀ page ∈ c.pages, ∀ e ∈ page.elements, e.KeepsExtra)
    (h : draft r c files args = .ok e) : e.KeepsExtra := by
  obtain ⟨d, f, hd, hf, he⟩ := draft_eq_ok h
  have hstart : d.KeepsExtra := by
    rcases start_eq_ok hd with ⟨page, hpage, he⟩ | rfl | ⟨_, _, hcentered⟩
    · exact hsource page hpage d he
    · exact keepsExtra_of_empty rfl
    · exact (centered_placed hcentered).keepsExtra (keepsExtra_of_empty rfl)
  have hsized : f.KeepsExtra := by
    rcases hf with rfl | hf
    · exact hstart
    · exact hf.keepsExtra hstart
  unfold Element.KeepsExtra
  rw [Changes.assign_keeps Element.setOnlyBy_extra he hargs]
  exact hsized

end Elements

/-! ## The parts of a project -/

section Parts
variable {ctx : Context} {p : Project} {name : String}

theorem Audio.Origin.storable {a : Audio} (h : Audio.Origin ctx p name a) (hp : p.Storable) :
    Keeps Audio.Storage a := by
  cases h with
  | kept hc ha => exact hp.audios _ hc a ha
  | created hreads _ hassign =>
      refine Changes.assign_fields Audio.lawful hassign
        ((Tracks.createGrammar_stores.arguments hreads.args).except _) fun f => ?_
      cases f with
      | id => exact Value.isText_text _
      | _ => trivial
  | changed hreads ha hmerge =>
      exact Changes.merge_fields Audio.lawful hmerge
        ((Tracks.changeGrammar_stores.arguments hreads.args).except _)
        (hp.audios _ hreads.composition _ ha)

theorem Element.Origin.keepsExtra {e : Element} (h : Element.Origin ctx p name e)
    (hp : p.KeepsExtra) : e.KeepsExtra := by
  cases h with
  | kept hpage he => exact hp.elements _ hpage e he
  | copied _ hpage he =>
      have hextra := hp.elements _ hpage _ he
      exact hextra
  | @created r c args e id hr hreads hdraft =>
      have hname : "extra" ∉ r.grammar.fields := by
        simp only [Elements.recipes, List.mem_cons, List.not_mem_nil, or_false] at hr
        rcases hr with rfl | rfl | rfl <;> decide
      have hextra : e.KeepsExtra :=
        Elements.draft_keepsExtra (Grammar.not_given hreads.args hname _)
          (fun page hpage => hp.elements page (Project.pages_eq hreads.composition ▸ hpage)) hdraft
      exact hextra
  | changed hreads _ _ hpage he _ hmerge =>
      unfold Element.KeepsExtra
      rw [Changes.merge_keeps Element.setOnlyBy_extra hmerge
        (Grammar.not_given hreads.args (by decide) _)]
      exact hp.elements _ (Project.pages_eq hreads.composition ▸ hpage) _ he

theorem Element.Origin.stores {e : Element} (h : Element.Origin ctx p name e) (hp : p.Storable) :
    Keeps Element.Storage e := by
  -- a drawn id is a text
  have hid : ∀ (e : Element) (id : String), Keeps Element.Storage e →
      Keeps Element.Storage { e with id := .text id } := by
    intro e id he f
    have hf := he f
    cases f with
    | id => exact Value.isText_text _
    | _ => exact hf
  cases h with
  | kept hpage he => exact (hp.elements _ hpage e he).1
  | copied id hpage he => exact hid _ id (hp.elements _ hpage _ he).1
  | @created r c args e id hr hreads hdraft =>
      have hsource : ∀ page ∈ c.pages, ∀ e ∈ page.elements, Keeps Element.Storage e :=
        fun page hpage e he =>
          (hp.elements page (Project.pages_eq hreads.composition ▸ hpage) e he).1
      have hfields : Keeps Element.Storage e :=
        Elements.draft_keeps hsource Elements.defaultText_stores
          (fun _ hplaced => Elements.placed_stores hplaced (Value.isText_text _))
          (fun _ _ he hplaced => Elements.placed_stores hplaced (he .id))
          ((Elements.grammar_stores hr).arguments hreads.args) hdraft
      exact hid e id hfields
  | changed hreads _ _ hpage he _ hmerge =>
      exact Changes.merge_fields Element.lawful hmerge
        ((Elements.changeGrammar_stores.arguments hreads.args).except _)
        (hp.elements _ (Project.pages_eq hreads.composition ▸ hpage) _ he).1

/-- The time of a note is in whole frames, or the given one. -/
def Note.Timed (t : Value) : Entity.Field Note → Value → Prop
  | .id => Value.IsText
  | .time => fun v => (∃ n, v = .int n) ∨ v = t
  | _ => fun _ => True

/-- Only a new note may stand at the playhead. -/
theorem Note.Origin.timed_or_new {note : Note} {t : Value} (h : Note.Origin ctx p name note)
    (hnotes : ∀ note ∈ p.notes, Keeps (Note.Timed t) note) :
    Keeps (Note.Timed t) note ∨
      name = "new-note" ∧ note.id.IsText ∧ note.time = p.appState.currentTime := by
  have hfit : ∀ changes : Changes, Changes.Fit Note.Storage changes →
      Changes.Fit (Note.Timed t) changes := by
    intro changes hchanges c hc f hf
    have hstored := hchanges c hc f hf
    cases f with
    | time => exact .inl hstored
    | _ => exact hstored
  cases h with
  | kept hnote => exact .inl (hnotes note hnote)
  | @created c args text id hreads _ =>
      cases hgiven : args.get? "time" with
      | none => exact .inr ⟨rfl, Value.isText_text _, rfl⟩
      | some v =>
          refine .inl fun f => ?_
          cases f with
          | id => exact Value.isText_text _
          | time =>
              exact .inl (Notes.createGrammar_stores.arguments hreads.args _
                (Value.mem_of_lookup hgiven) Note.Field.time rfl)
          | _ => trivial
  | changed hreads hnote hmerge =>
      have hkeeps := Changes.merge_fields Note.lawful hmerge
        (hfit _ ((Notes.changeGrammar_stores.arguments hreads.args).except _)) (hnotes _ hnote)
      refine .inl fun f => ?_
      have hf := hkeeps f
      cases f with
      | updatedAt => trivial
      | _ => exact hf

theorem Note.Origin.timed {note : Note} {t : Value} (h : Note.Origin ctx p name note)
    (hnotes : ∀ note ∈ p.notes, Keeps (Note.Timed t) note) (ht : p.appState.currentTime = t) :
    Keeps (Note.Timed t) note := by
  rcases h.timed_or_new hnotes with hkeeps | ⟨-, hid, htime⟩
  · exact hkeeps
  · intro f
    cases f with
    | id => exact hid
    | time => exact .inr (htime.trans ht)
    | _ => trivial

/-- A playhead on a whole frame makes no difference. -/
theorem Note.timed_int {note : Note} {n : Int} :
    Keeps (Note.Timed (.int n)) note ↔ Keeps Note.Storage note := by
  constructor
  · intro h f
    have hf := h f
    cases f with
    | time => exact hf.elim (fun h => h) fun h => ⟨n, h⟩
    | _ => exact hf
  · intro h f
    have hf := h f
    cases f with
    | time => exact .inl hf
    | _ => exact hf

theorem Note.Origin.storable {note : Note} (h : Note.Origin ctx p name note) (hp : p.Storable)
    (htime : ∃ n, p.appState.currentTime = .int n) : Keeps Note.Storage note := by
  obtain ⟨n, hn⟩ := htime
  exact Note.timed_int.mp (h.timed (fun d hd => Note.timed_int.mpr (hp.notes d hd)) hn)

theorem Page.Origin.storable {page : Page} (h : Page.Origin ctx p name page)
    (hpages : ∀ page ∈ p.pages, Keeps Page.Storage page ∧ page.noElements = .list []) :
    Keeps Page.Storage page ∧ page.noElements = .list [] := by
  have hfields : ∀ q : Page, q.id.IsText → (∃ n, q.duration = .int n) →
      Keeps Page.Storage q := by
    intro q hid hduration f
    cases f with
    | id => exact hid
    | duration => exact hduration
    | _ => trivial
  cases h with
  | kept hpage => exact hpages page hpage
  | refilled _ hpage =>
      obtain ⟨hkeeps, -⟩ := hpages _ hpage
      exact ⟨hfields _ (hkeeps .id) (hkeeps .duration), rfl⟩
  | blank _ _ _ => exact ⟨hfields _ (Value.isText_text _) ⟨_, rfl⟩, rfl⟩
  | copied _ _ hpage _ =>
      obtain ⟨hkeeps, -⟩ := hpages _ hpage
      exact ⟨hfields _ (Value.isText_text _) (hkeeps .duration), rfl⟩
  | @changed c args old new newId diff hreads hpage _ hmerge =>
      obtain ⟨hkeeps, hnone⟩ := hpages _ (Project.pages_eq hreads.composition ▸ hpage)
      have hfit : Changes.Fit Page.Storage (newId.map fun id => ("id", Value.text id)).toList := by
        cases newId with
        | none => exact nofun
        | some id =>
            intro d hd f hf
            obtain rfl := List.mem_singleton.mp hd
            cases hf
            exact Value.isText_text id
      have hnames : ∀ c ∈ args.except ["target", "id", "new_id", "before", "after"] ++
          (newId.map fun id => ("id", Value.text id)).toList, c.1 ∉ ["elements"] := by
        intro c hc
        rcases List.mem_append.mp hc with hc | hc
        · exact Grammar.not_given hreads.args (by decide) _ c hc
        · cases newId with
          | none => cases hc
          | some id =>
              obtain rfl := List.mem_singleton.mp hc
              exact (by decide : "id" ∉ ["elements"])
      refine ⟨Changes.merge_fields Page.lawful hmerge
        (((Pages.changeGrammar_stores.arguments hreads.args).except _).append hfit) hkeeps, ?_⟩
      rw [Changes.merge_keeps Page.setOnlyBy_noElements hmerge hnames]
      exact hnone

theorem Composition.Origin.fps_pos {d : Composition} (h : Composition.Origin ctx p name d)
    (hp : p.Storable) : 0 < d.fps := by
  cases h with
  | kept hc hfps _ _ => exact hfps ▸ hp.composition _ hc
  | @changed c _ args hreads hfps _ _ =>
      rw [hfps]
      cases hgiven : args.int? "fps" with
      | none => exact hp.composition c hreads.composition
      | some n => exact (Settings.fps_given hreads.args hgiven).1

theorem AppState.ZoomOrigin.ne_null {v : Value} (h : AppState.ZoomOrigin ctx p name v)
    (hp : p.Storable) : v ≠ .null := by
  cases h with
  | kept => exact hp.zoomLevel
  | changed _ _ => exact nofun

theorem Project.Origin.keepsExtra {q : Project} (h : Project.Origin ctx p name q)
    (hp : p.KeepsExtra) : q.KeepsExtra where
  elements page hpage e he := (h.elements page hpage e he).keepsExtra hp
  state := h.extra ▸ hp.state

/-- Everything but the notes of the project after a command is as it must be. -/
theorem Project.Origin.storable_withNotes {q : Project} (h : Project.Origin ctx p name q)
    (hp : p.Storable) {notes : List Note} (hnotes : ∀ note ∈ notes, Keeps Note.Storage note) :
    Project.Storable { q with notes } where
  composition d hd := (h.composition d hd).fps_pos hp
  pages page hpage := (h.pages page hpage).storable hp.pages
  elements page hpage e he :=
    ⟨(h.elements page hpage e he).stores hp, (h.elements page hpage e he).keepsExtra hp.keepsExtra⟩
  audios d hd a ha := (h.audios d hd a ha).storable hp
  notes := hnotes
  currentTime := by
    rw [h.currentTime]
    exact hp.currentTime
  zoomLevel := h.zoom.ne_null hp
  extra := by
    rw [h.extra]
    exact hp.extra

theorem Project.Origin.storable {q : Project} (h : Project.Origin ctx p name q) (hp : p.Storable)
    (htime : ∃ n, p.appState.currentTime = .int n) : q.Storable :=
  h.storable_withNotes hp fun note hnote => (h.notes note hnote).storable hp htime

end Parts

/-! ## Sessions -/

theorem Leads.storable {p q : Project} (h : Leads p q) (hp : p.Storable)
    (htime : ∃ n, p.appState.currentTime = .int n) :
    q.Storable ∧ q.appState.currentTime = p.appState.currentTime := by
  obtain ⟨_, _, horigin⟩ := h.origin
  exact ⟨horigin.storable hp htime, horigin.currentTime⟩

theorem Reaches.storable {p q : Project} (h : Reaches p q) (hp : p.Storable)
    (htime : ∃ n, p.appState.currentTime = .int n) :
    q.Storable ∧ q.appState.currentTime = p.appState.currentTime := by
  induction h with
  | refl => exact ⟨hp, rfl⟩
  | tail _ hstep ih =>
      obtain ⟨hstorable, hsame⟩ := ih
      obtain ⟨hstorable, hsame'⟩ := hstep.storable hstorable (hsame ▸ htime)
      exact ⟨hstorable, hsame'.trans hsame⟩

namespace Document

/-- The playhead that the document of a project gives; `null` if it gives none. -/
def givenTime (v : Value) : Value :=
  Value.entry (entriesOf (Value.entry (entriesOf v) "appState")) "currentTime"

theorem currentTime_of_project {v : Value} {p : Project} (h : project v = .ok p)
    (htime : givenTime v = .null ∨ ∃ n, givenTime v = .int n) :
    ∃ n, p.appState.currentTime = .int n := by
  unfold project at h
  split at h
  · rename_i fields
    have h := invalidIfBad_eq_ok h
    unfold projectOf at h
    simp only [bind_eq_ok, pure_eq_ok] at h
    obtain ⟨c, -, _, -, notes, -, state, hstate, rfl⟩ := h
    rw [appState_eq_ok hstate]
    rcases htime with hnull | ⟨n, hn⟩
    · refine ⟨0, ?_⟩
      change entryOr _ _ _ = _
      unfold entryOr
      rw [show Value.entry (entriesOf (Value.entry fields "appState")) "currentTime" = _ from hnull]
      rfl
    · exact ⟨n, entryOr_eq hn nofun⟩
  · cases h

/-- Whatever the lines of a session and its collaborators make of a project from a document, it is
read back as it was written. -/
theorem project_ofProject_of_reaches {v : Value} {p q : Project} (hv : v.Keyed)
    (hread : project v = .ok p) (htime : givenTime v = .null ∨ ∃ n, givenTime v = .int n)
    (h : Reaches p q) : project (ofProject q) = .ok q :=
  project_ofProject (h.storable (project_storable hread hv) (currentTime_of_project hread htime)).1

/-- A note at the playhead of a document with entries that the editor does not know. -/
theorem note_read_back :
    let v : Value := .object [
      ("composition", .object [("pages", .list [.object [("id", .text "page")]])]),
      ("appState", .object [("currentTime", .int 40), ("theme", .text "dark")])]
    ∃ p q, project v = .ok p ∧ Leads p q ∧ q.notes.map (·.time.isWhole) = [true] ∧
      project (ofProject q) = .ok q := by
  intro v
  let p : Project := {
    id := ""
    name := .text "Untitled Project"
    composition := some {
      pages := [{
        id := .text "page", name := .text "", duration := .int 0, backgroundColor := .null }] }
    appState := { currentTime := .int 40, extra := [("theme", .text "dark")] } }
  have hread : project v = .ok p := rfl
  let o := Session.answer .counting {} (some p) "/new-note --text Hello" {}
  have hleads : Leads p (o.revised.getD p) := ⟨_, _, _, _, o.projectAfter_some _⟩
  have hkeyed : v.Keyed := by
    refine .object (by decide) ?_
    simp only [List.forall_mem_cons]
    refine ⟨.object (by decide) ?_, .object (by decide) ?_, List.forall_mem_nil _⟩
    · simp only [List.forall_mem_cons]
      refine ⟨.list ?_, List.forall_mem_nil _⟩
      simp only [List.forall_mem_cons]
      refine ⟨.object (by decide) ?_, List.forall_mem_nil _⟩
      simp only [List.forall_mem_cons]
      exact ⟨.text _, List.forall_mem_nil _⟩
    · simp only [List.forall_mem_cons]
      exact ⟨.int _, .text _, List.forall_mem_nil _⟩
  refine ⟨p, _, hread, hleads, by decide +kernel, ?_⟩
  exact project_ofProject_of_reaches hkeyed hread (.inr ⟨40, rfl⟩) (.single hleads)

end Document

end Montage
