/-
# What holds of every value in a project

A property that is `Hereditary` passes from a document to every value in the project
that is read from it (`project_each`), from there on from line to line, as long as what
the line gives has the property and a new element has nothing else in its fields, and in
the end to the document that is written (`ofProject_each`):

    read            parts of the document, ids as texts, times as integers, defaults
    kept, copied    the values of before, and ids, which are texts
    merged          the values of before, and those of the line
    new track       defaults, and the values of the line
    new element     left to whoever knows the stored files: `Context.Gives`
    zoom            a level between a tenth and ten
    written         the values in the fields, among texts and integers

So an invariant about values owes no more than its two premises, and is spared the parts.
-/
import Montage.Proofs.Bounds
import Montage.Proofs.Codec
import Montage.Proofs.Origin

namespace Montage

open Value (Hereditary)

/-- Every value in the project has the property. -/
structure Project.Each (P : Value → Prop) (p : Project) : Prop where
  name : P p.name
  pages : ∀ page ∈ p.pages, Keeps (fun _ => P) page
  elements : ∀ page ∈ p.pages, ∀ e ∈ page.elements, Keeps (fun _ => P) e
  audios : ∀ c, p.composition = some c → ∀ a ∈ c.audios, Keeps (fun _ => P) a
  notes : ∀ note ∈ p.notes, Keeps (fun _ => P) note
  selectedPage : P p.appState.selectedPageId
  selectedElement : P p.appState.selectedElementId
  currentTime : P p.appState.currentTime
  zoomLevel : P p.appState.zoomLevel
  extra : ∀ f ∈ p.appState.extra, P f.2

variable {P : Value → Prop}

/-! ## What was read -/

namespace Document

variable {v : Value} {fields : Fields}

theorem each_entryOr {absent : Value} (hP : Hereditary P) (key : String)
    (h : ∀ f ∈ fields, P f.2) (habsent : P absent) : P (entryOr fields key absent) := by
  unfold entryOr
  dsimp only
  split
  · exact habsent
  · exact Value.getD_lookup key h hP.null

theorem each_entry (hP : Hereditary P) (key : String) (h : ∀ f ∈ fields, P f.2) :
    P (Value.entry fields key) := Value.getD_lookup key h hP.null

theorem element_each {e : Element} (hP : Hereditary P) (h : element v = .ok e) (hv : P v) :
    Keeps (fun _ => P) e := by
  obtain ⟨fields, rfl, hgives⟩ := element_eq_ok h
  have hget {f : Element.Field} (hf : f ∈ Element.Field.keyed) (hne : f ≠ .textAlign) :
      P (e.get f) := by
    rw [hgives.get f hf hne]
    refine each_entryOr hP _ (hP.entries hv) ?_
    split
    · exact hP.int 0
    · exact hP.null
  intro f
  cases f with
  | id =>
      obtain ⟨w, -, hid⟩ := hgives.id
      show P e.id
      rw [hid]
      exact hP.text _
  | kind => exact hP.text _
  | textAlign =>
      show P (Element.alignValue e.textAlign)
      cases e.textAlign with
      | none => exact hP.null
      | some a => exact hP.text a.name
  | extra =>
      show P e.extra.value
      rw [hgives.extra]
      exact hP.filter _ hv
  | _ => exact hget (by decide) (by decide)

theorem page_each {page : Page} (hP : Hereditary P) (h : Document.page v = .ok page) (hv : P v) :
    Keeps (fun _ => P) page ∧ ∀ e ∈ page.elements, Keeps (fun _ => P) e := by
  unfold Document.page at h
  simp only [bind_eq_ok, pure_eq_ok] at h
  obtain ⟨id, -, fields, hfields, n, -, vs, hvs, es, hes, rfl⟩ := h
  obtain rfl := fieldsOf_eq_ok hfields
  have hentries := hP.entries hv
  refine ⟨fun f => ?_, fun e he => ?_⟩
  · cases f with
    | id => exact hP.text _
    | name => exact Value.getD_lookup _ hentries (hP.text "")
    | duration => exact hP.int n
    | backgroundColor => exact each_entry hP "backgroundColor" hentries
    | elements =>
        show P (if es.isEmpty then Value.list [] else .text (Element.outlines es))
        split
        · exact hP.nil
        · exact hP.text _
  · obtain ⟨w, hw, hread⟩ := exists_of_mem_mapM hes he
    have helements : P ((fields.lookup "elements").getD (.list [])) :=
      Value.getD_lookup _ hentries hP.nil
    exact element_each hP hread (hP.sequence helements hvs w hw)

theorem each_blank (hP : Hereditary P) (id src : String) (f : Audio.Field) :
    P (({ id := .text id, src := .text src } : Audio).get f) := by
  cases f with
  | id | src => exact hP.text _
  | volume | playbackRate | toneFrequency => exact hP.float Binary64.isFinite_one
  | delay | duration | trimBefore | trimAfter => exact hP.int _
  | muted | loop => exact hP.bool false

theorem audio_each {a : Audio} (hP : Hereditary P) (h : audio v = .ok a) (hv : P v) :
    Keeps (fun _ => P) a := by
  unfold audio at h
  simp only [bind_eq_ok, pure_eq_ok] at h
  obtain ⟨_, -, id, -, fields, hfields, rfl⟩ := h
  obtain rfl := fieldsOf_eq_ok hfields
  intro f
  have hread := Value.getD_lookup f.key (hP.entries hv) (each_blank hP id.display "" f)
  cases f with
  | id => exact hP.text _
  | _ => exact hread

theorem note_each {note : Note} (hP : Hereditary P) (h : Document.note v = .ok note) (hv : P v) :
    Keeps (fun _ => P) note := by
  unfold Document.note at h
  simp only [bind_eq_ok, pure_eq_ok] at h
  obtain ⟨id, -, fields, hfields, n, -, rfl⟩ := h
  obtain rfl := fieldsOf_eq_ok hfields
  have htext (key : String) : P ((fields.lookup key).getD (.text "")) :=
    Value.getD_lookup key (hP.entries hv) (hP.text "")
  intro f
  cases f with
  | id => exact hP.text _
  | time => exact hP.int n
  | text => exact htext "text"
  | createdAt => exact htext "createdAt"
  | updatedAt => exact each_entry hP "updatedAt" (hP.entries hv)

theorem composition_each {c : Composition} (hP : Hereditary P) (h : composition v = .ok c)
    (hv : P v) :
    (∀ page ∈ c.pages, Keeps (fun _ => P) page ∧ ∀ e ∈ page.elements, Keeps (fun _ => P) e) ∧
      ∀ a ∈ c.audios, Keeps (fun _ => P) a := by
  unfold composition at h
  simp only [bind_eq_ok, pure_eq_ok, error_bind, guard_eq_ok] at h
  obtain ⟨fields, hfields, fps, -, -, width, -, height, -, vs, hvs, pages, hpages, ws, hws, audios,
    haudios, rfl⟩ := h
  obtain rfl := fieldsOf_eq_ok hfields
  have hitems (key : String) : P (orEmpty (Value.entry fields key)) :=
    hP.orEmpty (each_entry hP key (hP.entries hv))
  refine ⟨fun page hpage => ?_, fun a ha => ?_⟩
  · obtain ⟨w, hw, hread⟩ := exists_of_mem_mapM hpages hpage
    exact page_each hP hread (hP.sequence (hitems "pages") hvs w hw)
  · obtain ⟨w, hw, hread⟩ := exists_of_mem_mapM haudios ha
    exact audio_each hP hread (hP.sequence (hitems "audios") hws w hw)

/-- What holds of a document and its parts holds of every value in the project that is read. -/
theorem project_each {p : Project} (hP : Hereditary P) (h : project v = .ok p) (hv : P v) :
    p.Each P := by
  unfold project at h
  split at h
  · rename_i fields
    have h := invalidIfBad_eq_ok h
    unfold projectOf at h
    simp only [bind_eq_ok, pure_eq_ok] at h
    obtain ⟨c, hc, vs, hvs, notes, hnotes, state, hstate, rfl⟩ := h
    have hentries := hP.entries hv
    have hparts := fun d (hd : c = some d) =>
      composition_each hP (composition?_eq_some (hd ▸ hc)) (each_entry hP "composition" hentries)
    have hstates : ∀ f ∈ entriesOf (Value.entry fields "appState"), P f.2 := by
      have hentry : P (Value.entry fields "appState") := each_entry hP "appState" hentries
      revert hentry
      cases Value.entry fields "appState" with
      | object fields => exact hP.entries
      | _ => exact fun _ => nofun
    obtain rfl := appState_eq_ok hstate
    exact {
      name := Value.getD_lookup _ hentries (hP.text _)
      pages := by
        intro page hpage
        cases c with
        | none => cases hpage
        | some d => exact ((hparts d rfl).1 page hpage).1
      elements := by
        intro page hpage
        cases c with
        | none => cases hpage
        | some d => exact ((hparts d rfl).1 page hpage).2
      audios := fun d hd => (hparts d hd).2
      notes := by
        intro note hnote
        obtain ⟨w, hw, hread⟩ := exists_of_mem_mapM hnotes hnote
        have hitems : P (orEmpty (Value.entry fields "notes")) :=
          hP.orEmpty (each_entry hP "notes" hentries)
        exact note_each hP hread (hP.sequence hitems hvs w hw)
      selectedPage := each_entryOr hP _ hstates hP.null
      selectedElement := each_entryOr hP _ hstates hP.null
      currentTime := each_entryOr hP _ hstates (hP.int 0)
      zoomLevel := each_entryOr hP _ hstates (hP.float Binary64.isFinite_one)
      extra := fun f hf => hstates f (List.mem_filter.mp hf).1 }
  · cases h

end Document

/-! ## What is written -/

namespace Document

theorem forall_ifPresent {key : String} {v : Value} (hv : P v) :
    ∀ f ∈ ifPresent key v, P f.2 := by
  intro f hf
  rwa [eq_of_mem_ifPresent hf]

theorem keys_ifPresent (key : String) (v : Value) :
    ((ifPresent key v).map Prod.fst).Sublist [key] := by
  unfold ifPresent
  split
  · exact List.nil_sublist _
  · exact List.Sublist.refl _

theorem keys_elementEntries (e : Element) :
    ((elementEntries e).map Prod.fst).Sublist elementKeys := by
  unfold elementEntries elementKeys
  rw [List.map_append]
  refine List.Sublist.append (List.Sublist.refl _) ?_
  induction Element.Field.keyed with
  | nil => exact List.Sublist.refl _
  | cons f fs ih =>
      rw [List.flatMap_cons, List.map_append, List.map_cons]
      exact List.Sublist.append (keys_ifPresent f.key (e.get f)) ih

theorem nodup_beside {keys : List String} {known extra : Fields} (hkeys : keys.Nodup)
    (hknown : (known.map Prod.fst).Sublist keys) (hbeside : Beside keys extra) :
    ((known ++ extra).map Prod.fst).Nodup := by
  rw [List.map_append]
  refine List.nodup_append.mpr ⟨hknown.nodup hkeys, hbeside.nodup, ?_⟩
  rintro _ hk _ hk' rfl
  obtain ⟨f, hf, rfl⟩ := List.mem_map.mp hk'
  exact hbeside.unknown f hf (hknown.subset hk)

/-- Known entries and the ones beside them make an object. -/
theorem each_beside {keys : List String} {known extra : Fields} (hP : Hereditary P)
    (hkeys : keys.Nodup) (hknown : (known.map Prod.fst).Sublist keys) (hbeside : Beside keys extra)
    (h : ∀ f ∈ known, P f.2) (hextra : ∀ f ∈ extra, P f.2) : P (.object (known ++ extra)) :=
  hP.object (nodup_beside hkeys hknown hbeside) (List.forall_mem_append.mpr ⟨h, hextra⟩)

theorem each_map {α : Type} {write : α → Value} {xs : List α} (hP : Hereditary P)
    (h : ∀ x ∈ xs, P (write x)) : P (.list (xs.map write)) :=
  hP.list.mpr (List.forall_mem_map.mpr h)

theorem ofElement_each {e : Element} (hP : Hereditary P) (h : Keeps (fun _ => P) e)
    (hextra : e.KeepsExtra) : P (ofElement e) := by
  obtain ⟨entries, hbeside, hentries⟩ := hextra
  have hvalue : P (.object entries) := by
    have hget : P (e.get .extra) := h Element.Field.extra
    rwa [Element.get, hentries] at hget
  rw [ofElement_eq hbeside hentries]
  refine each_beside hP (by decide) (keys_elementEntries e) hbeside ?_ (hP.entries hvalue)
  refine List.forall_mem_append.mpr ⟨?_, fun f hf => ?_⟩
  · simp only [List.forall_mem_cons]
    exact ⟨h .id, hP.text e.kind.name, List.forall_mem_nil _⟩
  · obtain ⟨g, -, hf⟩ := List.mem_flatMap.mp hf
    rw [eq_of_mem_ifPresent hf]
    exact h g

theorem ofPage_each {page : Page} (hP : Hereditary P) (h : Keeps (fun _ => P) page)
    (helements : ∀ e ∈ page.elements, P (ofElement e)) : P (ofPage page) := by
  have hkeys : ["id", "name", "duration", "backgroundColor", "elements"].Nodup := by decide
  refine hP.object (List.Sublist.nodup ?_ hkeys) ?_
  · rw [List.map_append, List.map_append]
    exact ((List.Sublist.refl ["id", "name", "duration"]).append
      (keys_ifPresent "backgroundColor" page.backgroundColor)).append (List.Sublist.refl _)
  · simp only [List.forall_mem_append, List.forall_mem_cons]
    exact ⟨⟨⟨h .id, h .name, h .duration, List.forall_mem_nil _⟩,
      forall_ifPresent (h .backgroundColor)⟩, each_map hP helements, List.forall_mem_nil _⟩

theorem ofAudio_each {a : Audio} (hP : Hereditary P) (h : Keeps (fun _ => P) a) :
    P (ofAudio a) := by
  refine hP.object ?_ ?_
  · show ("id" :: Audio.Field.keyed.map Audio.Field.key).Nodup
    decide
  · rw [List.forall_mem_cons]
    exact ⟨h .id, List.forall_mem_map.mpr fun f _ => h f⟩

theorem ofNote_each {note : Note} (hP : Hereditary P) (h : Keeps (fun _ => P) note) :
    P (ofNote note) := by
  have hkeys : ["id", "time", "text", "createdAt", "updatedAt"].Nodup := by decide
  refine hP.object (List.Sublist.nodup ?_ hkeys) ?_
  · rw [List.map_append]
    exact (List.Sublist.refl ["id", "time", "text", "createdAt"]).append
      (keys_ifPresent "updatedAt" note.updatedAt)
  · simp only [List.forall_mem_append, List.forall_mem_cons]
    exact ⟨⟨h .id, h .time, h .text, h .createdAt, List.forall_mem_nil _⟩,
      forall_ifPresent (h .updatedAt)⟩

theorem ofAppState_each {p : Project} (hP : Hereditary P) (h : p.Each P) (hextra : p.KeepsExtra) :
    P (ofAppState p.appState) := by
  rw [ofAppState_eq hextra.state]
  refine each_beside hP (by decide) (List.Sublist.refl appStateKeys) hextra.state ?_ h.extra
  simp only [appStateEntries, List.forall_mem_cons]
  exact ⟨h.selectedPage, h.selectedElement, h.currentTime, h.zoomLevel, List.forall_mem_nil _⟩

theorem ofComposition_each {p : Project} {c : Composition} (hP : Hereditary P) (h : p.Each P)
    (hextra : p.KeepsExtra) (hc : p.composition = some c) : P (ofComposition c) := by
  have hpages (page : Page) (hpage : page ∈ c.pages) : P (ofPage page) := by
    have hmem : page ∈ p.pages := Project.pages_eq hc ▸ hpage
    exact ofPage_each hP (h.pages page hmem) fun e he =>
      ofElement_each hP (h.elements page hmem e he) (hextra.elements page hmem e he)
  refine hP.object ?_ ?_
  · show ["fps", "width", "height", "pages", "audios"].Nodup
    decide
  · simp only [List.forall_mem_cons]
    exact ⟨hP.int _, hP.int _, hP.int _, each_map hP hpages,
      each_map hP fun a ha => ofAudio_each hP (h.audios c hc a ha), List.forall_mem_nil _⟩

/-- What holds of every value in a project holds of its document. -/
theorem ofProject_each {p : Project} (hP : Hereditary P) (h : p.Each P) (hextra : p.KeepsExtra) :
    P (ofProject p) := by
  have hcomposition : P ((p.composition.map ofComposition).getD .null) := by
    cases hc : p.composition with
    | none => exact hP.null
    | some c => exact ofComposition_each hP h hextra hc
  refine hP.object ?_ ?_
  · show ["id", "name", "composition", "notes", "appState"].Nodup
    decide
  · simp only [List.forall_mem_cons]
    exact ⟨hP.text _, h.name, hcomposition,
      each_map hP fun note hnote => ofNote_each hP (h.notes note hnote),
      ofAppState_each hP h hextra, List.forall_mem_nil _⟩

/-- What holds of a document and its parts holds of its composition. -/
theorem each_ofComposition {p : Project} {c : Composition} (hP : Hereditary P)
    (h : P (ofProject p)) (hc : p.composition = some c) :
    (∀ page ∈ c.pages, P (ofPage page)) ∧ ∀ a ∈ c.audios, P (ofAudio a) := by
  have hcomposition : P ((p.composition.map ofComposition).getD .null) :=
    hP.entries h ("composition", _)
      (List.mem_cons_of_mem _ (List.mem_cons_of_mem _ List.mem_cons_self))
  rw [hc] at hcomposition
  have hpages : P (.list (c.pages.map ofPage)) :=
    hP.entries hcomposition ("pages", _) (by simp)
  have haudios : P (.list (c.audios.map ofAudio)) :=
    hP.entries hcomposition ("audios", _) (by simp)
  exact ⟨List.forall_mem_map.mp (hP.list.mp hpages), List.forall_mem_map.mp (hP.list.mp haudios)⟩

theorem get_each_of_ofAudio {a : Audio} (hP : Hereditary P) (h : P (ofAudio a)) :
    ∀ f ∈ Audio.Field.keyed, P (a.get f) :=
  fun f hf => hP.entries h (f.key, a.get f)
    (List.mem_cons_of_mem _ (List.mem_map_of_mem (f := fun f => (f.key, a.get f)) hf))

theorem get_each_of_ofElement {e : Element} (hP : Hereditary P) (h : P (ofElement e))
    (hextra : e.KeepsExtra) : ∀ f ∈ Element.Field.keyed, P (e.get f) := by
  intro f hf
  obtain ⟨entries, hbeside, hentries⟩ := hextra
  rw [ofElement_eq hbeside hentries] at h
  rw [← entry_beside hbeside hf]
  exact each_entry hP f.key (hP.entries h)

end Document

/-! ## New elements and pages -/

namespace Elements

variable {c : Composition}

theorem defaultText_each (hP : Hereditary P) : Keeps (fun _ => P) defaultText := by
  intro f
  cases f with
  | extra => exact hP.object List.nodup_nil nofun
  | id | kind | text | color | fontFamily | fontWeight | textAlign => exact hP.text _
  | left | top | width | height | fontSize => exact hP.int _
  | _ => exact hP.null

theorem plainMedium_each (hP : Hereditary P) (kind : ElementKind) :
    Keeps (fun _ => P) (plainMedium kind) := by
  intro f
  cases f with
  | extra => exact hP.object List.nodup_nil nofun
  | id | kind => exact hP.text _
  | left | top | width | height | rotation => exact hP.int _
  | opacity => exact hP.float Binary64.isFinite_one
  | delay =>
      show P (if kind = .video then Value.int 0 else .null)
      split
      · exact hP.int 0
      · exact hP.null
  | _ => exact hP.null

/-- Only the place and the size of a centred element are new. -/
theorem each_centered {width height : Value} {e f : Element}
    (h : centered c width height e = .ok f) (he : Keeps (fun _ => P) e)
    (hplace : ∀ v ∈ [f.left, f.top, f.width, f.height], P v) : Keeps (fun _ => P) f := by
  obtain ⟨left, top, width, height, -, rfl⟩ := centered_placed h
  intro g
  have hg := he g
  cases g with
  | left => exact hplace left (by simp)
  | top => exact hplace top (by simp)
  | width => exact hplace width (by simp)
  | height => exact hplace height (by simp)
  | _ => exact hg

/-- A size in integers leaves room in integers. -/
theorem centered_int {m n : Int} {e f : Element} (h : centered c (.int m) (.int n) e = .ok f) :
    ∀ v ∈ [f.left, f.top, f.width, f.height], ∃ k, v = .int k := by
  obtain ⟨left, hleft, h⟩ := bind_eq_ok.mp h
  obtain ⟨top, htop, h⟩ := bind_eq_ok.mp h
  cases h
  cases hleft
  cases htop
  simp only [List.forall_mem_cons]
  exact ⟨⟨_, rfl⟩, ⟨_, rfl⟩, ⟨m, rfl⟩, ⟨n, rfl⟩, List.forall_mem_nil _⟩

/-- What a new element starts from has the property of what is there. -/
theorem start_each {kind : ElementKind} {args : Arguments} {e : Element} (hP : Hereditary P)
    (hsource : ∀ page ∈ c.pages, ∀ e ∈ page.elements, Keeps (fun _ => P) e)
    (h : start c kind args = .ok e) : Keeps (fun _ => P) e := by
  rcases start_eq_ok h with ⟨page, hpage, he⟩ | rfl | ⟨_, _, hcentered⟩
  · exact hsource page hpage e he
  · exact defaultText_each hP
  · refine each_centered hcentered (plainMedium_each hP kind) fun v hv => ?_
    obtain ⟨k, rfl⟩ := centered_int hcentered v hv
    exact hP.int k

end Elements

theorem Page.each_of_values {page : Page} (hP : Hereditary P) (hid : P page.id)
    (hname : P page.name) (hduration : P page.duration) (hcolor : P page.backgroundColor)
    (hnone : page.noElements = .list []) : Keeps (fun _ => P) page := by
  intro f
  cases f with
  | id => exact hid
  | name => exact hname
  | duration => exact hduration
  | backgroundColor => exact hcolor
  | elements =>
      show P (if page.elements.isEmpty then page.noElements
        else .text (Element.outlines page.elements))
      split
      · exact hnone ▸ hP.nil
      · exact hP.text _

/-! ## The parts of a project -/

/-- The grammars of the commands that set fields, the ones that add elements apart. -/
def setters : List Grammar := [
  Tracks.createGrammar, Tracks.changeGrammar, Elements.changeGrammar, Notes.createGrammar,
  Notes.changeGrammar, Pages.changeGrammar]

/-- What the line of a command gives, and every value in a new element, has the property. -/
structure Context.Gives (ctx : Context) (p : Project) (name : String) (P : Value → Prop) :
    Prop where
  arguments : ∀ g ∈ setters, g.command = name → ∀ c args, ctx.Reads g p c args →
    ∀ f ∈ args, P f.2
  element : ∀ r ∈ Elements.recipes, r.grammar.command = name → ∀ c args e,
    ctx.Reads r.grammar p c args → Elements.draft r c ctx.collaborators.files args = .ok e →
    Keeps (fun _ => P) e

section Parts
variable {ctx : Context} {p : Project} {name : String}

/-- What a line gives may stand in any field. -/
theorem Changes.fit_each {α : Type} [Entity α] {args : Arguments} (h : ∀ f ∈ args, P f.2) :
    Fit (fun (_ : Entity.Field α) => P) args :=
  fun f hf _ _ => h f hf

theorem Audio.Origin.each {a : Audio} (hP : Hereditary P) (h : Audio.Origin ctx p name a)
    (hp : p.Each P) (hgives : ctx.Gives p name P) : Keeps (fun _ => P) a := by
  cases h with
  | kept hc ha => exact hp.audios _ hc a ha
  | @created c args src id a hreads _ hassign =>
      have hargs := hgives.arguments Tracks.createGrammar (by simp [setters]) rfl c args hreads
      refine Changes.assign_fields Audio.lawful hassign ((Changes.fit_each hargs).except _)
        fun f => ?_
      have hblank := Document.each_blank hP id src f
      cases f with
      | duration => exact hP.int _
      | _ => exact hblank
  | @changed c args a b diff hreads ha hmerge =>
      have hargs := hgives.arguments Tracks.changeGrammar (by simp [setters]) rfl c args hreads
      exact Changes.merge_fields Audio.lawful hmerge ((Changes.fit_each hargs).except _)
        (hp.audios c hreads.composition a ha)

theorem Element.Origin.each {e : Element} (hP : Hereditary P) (h : Element.Origin ctx p name e)
    (hp : p.Each P) (hgives : ctx.Gives p name P) : Keeps (fun _ => P) e := by
  have hid : ∀ (e : Element) (id : String), Keeps (fun _ => P) e →
      Keeps (fun _ => P) { e with id := .text id } := by
    intro e id he f
    have hf := he f
    cases f with
    | id => exact hP.text id
    | _ => exact hf
  cases h with
  | kept hpage he => exact hp.elements _ hpage e he
  | copied id hpage he => exact hid _ id (hp.elements _ hpage _ he)
  | @created r c args e id hr hreads hdraft =>
      exact hid e id (hgives.element r hr rfl c args e hreads hdraft)
  | @changed c args _ _ page d _ _ hreads _ _ hpage hd _ hmerge =>
      have hargs := hgives.arguments Elements.changeGrammar (by simp [setters]) rfl c args hreads
      exact Changes.merge_fields Element.lawful hmerge ((Changes.fit_each hargs).except _)
        (hp.elements page (Project.pages_eq hreads.composition ▸ hpage) d hd)

theorem Note.Origin.each {note : Note} (hP : Hereditary P) (h : Note.Origin ctx p name note)
    (hp : p.Each P) (hgives : ctx.Gives p name P) : Keeps (fun _ => P) note := by
  cases h with
  | kept hnote => exact hp.notes note hnote
  | @created c args text id hreads _ =>
      have hargs := hgives.arguments Notes.createGrammar (by simp [setters]) rfl c args hreads
      intro f
      cases f with
      | time =>
          show P ((args.get? "time").getD p.appState.currentTime)
          exact Value.getD_lookup "time" hargs hp.currentTime
      | updatedAt => exact hP.null
      | _ => exact hP.text _
  | @changed c args old new diff hreads hnote hmerge =>
      have hargs := hgives.arguments Notes.changeGrammar (by simp [setters]) rfl c args hreads
      have hkeeps := Changes.merge_fields Note.lawful hmerge ((Changes.fit_each hargs).except _)
        (hp.notes old hnote)
      intro f
      have hf := hkeeps f
      cases f with
      | updatedAt => exact hP.text _
      | _ => exact hf

theorem Page.Origin.each {page : Page} (hP : Hereditary P) (h : Page.Origin ctx p name page)
    (hp : p.Each P) (hgives : ctx.Gives p name P) : Keeps (fun _ => P) page := by
  cases h with
  | kept hpage => exact hp.pages page hpage
  | refilled _ hpage =>
      have hkeeps := hp.pages _ hpage
      exact Page.each_of_values hP (hkeeps .id) (hkeeps .name) (hkeeps .duration)
        (hkeeps .backgroundColor) rfl
  | blank _ _ _ => exact Page.each_of_values hP (hP.text _) (hP.text _) (hP.int _) (hP.text _) rfl
  | copied _ _ hpage _ =>
      have hkeeps := hp.pages _ hpage
      exact Page.each_of_values hP (hP.text _) (hP.text _) (hkeeps .duration)
        (hkeeps .backgroundColor) rfl
  | @changed c args old new newId diff hreads hpage _ hmerge =>
      have hargs := hgives.arguments Pages.changeGrammar (by simp [setters]) rfl c args hreads
      have hfit : Changes.Fit (fun (_ : Entity.Field Page) => P)
          (newId.map fun id => ("id", Value.text id)).toList := by
        intro d hd f hf
        obtain ⟨id, -, rfl⟩ := Option.map_eq_some_iff.mp (Option.mem_toList.mp hd)
        exact hP.text id
      exact Changes.merge_fields Page.lawful hmerge
        (((Changes.fit_each hargs).except _).append hfit)
        (hp.pages old (Project.pages_eq hreads.composition ▸ hpage))

theorem AppState.ZoomOrigin.each {v : Value} (hP : Hereditary P)
    (h : AppState.ZoomOrigin ctx p name v) (hp : p.Each P) : P v := by
  cases h with
  | kept => exact hp.zoomLevel
  | changed _ hx =>
      exact hP.float (Value.isFinite_of_between (by decide +kernel) (by decide +kernel)
        (Settings.level_between (Settings.requirePercentage_ne_nan hx)))

/-- A command that is given values with the property leaves values with the property. -/
theorem Project.Origin.each {q : Project} (hP : Hereditary P) (h : Project.Origin ctx p name q)
    (hp : p.Each P) (hgives : ctx.Gives p name P) : q.Each P where
  name := by
    rcases h.title with hkept | ⟨s, htext⟩
    · exact hkept ▸ hp.name
    · exact htext ▸ hP.text s
  pages page hpage := (h.pages page hpage).each hP hp hgives
  elements page hpage e he := (h.elements page hpage e he).each hP hp hgives
  audios d hd a ha := (h.audios d hd a ha).each hP hp hgives
  notes note hnote := (h.notes note hnote).each hP hp hgives
  selectedPage := by
    rcases h.selectedPage with hkept | ⟨s, htext⟩ | ⟨page, hpage, hid⟩
    · exact hkept ▸ hp.selectedPage
    · exact htext ▸ hP.text s
    · exact hid ▸ (h.pages page hpage).each hP hp hgives .id
  selectedElement := by
    rcases h.selectedElement with hkept | hnone
    · exact hkept ▸ hp.selectedElement
    · exact hnone ▸ hP.null
  currentTime := h.currentTime ▸ hp.currentTime
  zoomLevel := h.zoom.each hP hp
  extra := h.extra ▸ hp.extra

end Parts

end Montage
