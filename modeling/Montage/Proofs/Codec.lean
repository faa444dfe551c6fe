/-
# Reading back what was written

`Document.ofProject` leaves out what is absent and writes the rest; `Document.project`
fills in what is missing and converts what it finds.  On the projects that are
`Storable` the second undoes the first (`project_ofProject`), and every project that
was read is one of them (`project_storable`):

    page, element, track, note    the id is a text
    element                       a place and a size; unknown entries with other keys
    page, note                    the frames are an integer
    composition                   a positive frame rate
    editor state                  a playhead and a zoom level; unknown entries likewise

So reading a document, writing it and reading it again gives the project that the
first reading gave.  An object is taken to have each key once (`Value.Keyed`).
-/
import Montage.Document.Encode
import Montage.Proofs.Decode
import Montage.Proofs.Fields
import Montage.Proofs.Refusal
import Montage.Proofs.Target

namespace Montage

/-! ## Objects and entries -/

/-- Induction on the parts of a value. -/
theorem Value.induction {P : Value → Prop} (null : P .null) (bool : ∀ b, P (.bool b))
    (int : ∀ n, P (.int n)) (float : ∀ x, P (.float x)) (text : ∀ s, P (.text s))
    (bytes : ∀ bs, P (.bytes bs)) (list : ∀ items, (∀ v ∈ items, P v) → P (.list items))
    (object : ∀ fields, (∀ f ∈ fields, P f.2) → P (.object fields)) : ∀ v, P v
  | .null => null
  | .bool b => bool b
  | .int n => int n
  | .float x => float x
  | .text s => text s
  | .bytes bs => bytes bs
  | .list items =>
      list items fun v _ => Value.induction null bool int float text bytes list object v
  | .object fields =>
      object fields fun f _ => Value.induction null bool int float text bytes list object f.2
termination_by v => sizeOf v
decreasing_by
  · rename_i hv
    have hlt := List.sizeOf_lt_of_mem hv
    simp only [Value.list.sizeOf_spec]
    omega
  · rename_i hf
    have hlt := List.sizeOf_lt_of_mem hf
    have hpair : sizeOf f = 1 + sizeOf f.1 + sizeOf f.2 := by cases f; rfl
    simp only [Value.object.sizeOf_spec]
    omega

/-- Every object in the value, at any depth, has each of its keys once. -/
inductive Value.Keyed : Value → Prop
  | null : Keyed .null
  | bool (b : Bool) : Keyed (.bool b)
  | int (n : Int) : Keyed (.int n)
  | float (x : Binary64) : Keyed (.float x)
  | text (s : String) : Keyed (.text s)
  | bytes (bs : List UInt8) : Keyed (.bytes bs)
  | list {items : List Value} : (∀ v ∈ items, Keyed v) → Keyed (.list items)
  | object {fields : List (String × Value)} :
      (fields.map Prod.fst).Nodup → (∀ f ∈ fields, Keyed f.2) → Keyed (.object fields)

/-- The entries have each key once, and none of the known ones. -/
structure Beside (known : List String) (entries : List (String × Value)) : Prop where
  nodup : (entries.map Prod.fst).Nodup
  unknown : ∀ f ∈ entries, f.1 ∉ known

namespace Value

theorem put_of_not_mem {key : String} {v : Value} {fields : List (String × Value)}
    (h : key ∉ fields.map Prod.fst) : put key v fields = fields ++ [(key, v)] := by
  induction fields with
  | nil => rfl
  | cons f r ih =>
      rw [List.map_cons, List.mem_cons, not_or] at h
      have hne : (f.1 == key) = false := by simpa using Ne.symm h.1
      unfold put
      rw [hne, ih h.2]
      rfl

theorem lookup_of_not_mem {key : String} {fields : List (String × Value)}
    (h : key ∉ fields.map Prod.fst) : fields.lookup key = none := by
  rw [List.lookup_eq_none_iff]
  intro f hf
  rw [bne_iff_ne]
  rintro rfl
  exact h (List.mem_map_of_mem hf)

theorem lookup_append_left {key : String} {fields more : List (String × Value)}
    (h : key ∉ more.map Prod.fst) : (fields ++ more).lookup key = fields.lookup key := by
  rw [List.lookup_append, lookup_of_not_mem h, Option.or_none]

end Value

namespace Document

theorem withExtra_eq {known extra : List (String × Value)} (hnodup : (extra.map Prod.fst).Nodup)
    (hknown : ∀ f ∈ extra, f.1 ∉ known.map Prod.fst) : withExtra known extra = known ++ extra := by
  unfold withExtra
  induction extra generalizing known with
  | nil => exact (List.append_nil known).symm
  | cons f r ih =>
      rw [List.map_cons, List.nodup_cons] at hnodup
      rw [List.foldl_cons, Value.put_of_not_mem (hknown f List.mem_cons_self),
        ih hnodup.2, List.append_assoc]
      · rfl
      · intro g hg hmem
        rw [List.map_append, List.mem_append] at hmem
        rcases hmem with hmem | hmem
        · exact hknown g (List.mem_cons_of_mem _ hg) hmem
        · have hgf : g.1 = f.1 := List.mem_singleton.mp hmem
          exact hnodup.1 (hgf ▸ List.mem_map_of_mem hg)

theorem others_append {known extra : List (String × Value)} {keys : List String}
    (hknown : ∀ f ∈ known, f.1 ∈ keys) (hextra : ∀ f ∈ extra, f.1 ∉ keys) :
    others keys (known ++ extra) = extra := by
  unfold others
  rw [List.filter_append, List.filter_eq_nil_iff.mpr, List.filter_eq_self.mpr, List.nil_append]
  · intro f hf
    simpa using hextra f hf
  · intro f hf
    simpa using hknown f hf

theorem others_beside {keys : List String} {fields : Fields} (h : (fields.map Prod.fst).Nodup) :
    Beside keys (others keys fields) where
  nodup := (List.filter_sublist.map _).nodup h
  unknown f hf := by simpa using (List.mem_filter.mp hf).2

theorem eq_of_mem_ifPresent {key : String} {v : Value} {f : String × Value}
    (h : f ∈ ifPresent key v) : f = (key, v) := by
  unfold ifPresent at h
  split at h
  · cases h
  · exact List.mem_singleton.mp h

theorem entry_ifPresent (key : String) (v : Value) : Value.entry (ifPresent key v) key = v := by
  unfold ifPresent
  cases v with
  | null => rfl
  | _ => simp [Value.isNull, Value.entry]

theorem lookup_ifPresent_of_ne {key k : String} (v : Value) (h : k ≠ key) :
    (ifPresent key v).lookup k = none := by
  refine Value.lookup_of_not_mem fun hmem => ?_
  obtain ⟨f, hf, rfl⟩ := List.mem_map.mp hmem
  exact h (congrArg Prod.fst (eq_of_mem_ifPresent hf))

/-- Among the fields that are not left out, each one stands under its key. -/
theorem lookup_flatMap {F : Type} {key : F → String} (get : F → Value) {fs : List F} {f : F}
    (hnodup : (fs.map key).Nodup) (hf : f ∈ fs) :
    (fs.flatMap fun f => ifPresent (key f) (get f)).lookup (key f) =
      (ifPresent (key f) (get f)).lookup (key f) := by
  induction fs with
  | nil => cases hf
  | cons g r ih =>
      rw [List.map_cons, List.nodup_cons] at hnodup
      rw [List.flatMap_cons]
      rcases List.mem_cons.mp hf with rfl | hf
      · refine Value.lookup_append_left fun hmem => ?_
        obtain ⟨e, he, hkey⟩ := List.mem_map.mp hmem
        obtain ⟨g, hg, he⟩ := List.mem_flatMap.mp he
        refine hnodup.1 (List.mem_map.mpr ⟨g, hg, ?_⟩)
        rw [← hkey, eq_of_mem_ifPresent he]
      · have hne : key f ≠ key g := by
          intro heq
          exact hnodup.1 (heq ▸ List.mem_map_of_mem hf)
        rw [List.lookup_append, lookup_ifPresent_of_ne (get g) hne, Option.none_or]
        exact ih hnodup.2 hf

end Document

/-! ## What can be written and read back -/

/-- What the fields of an audio track hold. -/
def Audio.Storage : Entity.Field Audio → Value → Prop
  | .id => Value.IsText
  | _ => fun _ => True

/-- What the fields of an element hold. -/
def Element.Storage : Entity.Field Element → Value → Prop
  | .id => Value.IsText
  | .left | .top | .width | .height => (· ≠ .null)
  | _ => fun _ => True

/-- What the fields of a note hold. -/
def Note.Storage : Entity.Field Note → Value → Prop
  | .id => Value.IsText
  | .time => fun v => ∃ n, v = .int n
  | _ => fun _ => True

/-- What the fields of a page hold. -/
def Page.Storage : Entity.Field Page → Value → Prop
  | .id => Value.IsText
  | .duration => fun v => ∃ n, v = .int n
  | _ => fun _ => True

/-- The element keeps its unknown entries as an object. -/
def Element.KeepsExtra (e : Element) : Prop :=
  ∃ entries, Beside Document.elementKeys entries ∧ e.extra = { entries }

/-- What can be written and read back without a change. -/
structure Project.Storable (p : Project) : Prop where
  composition : ∀ c, p.composition = some c → 0 < c.fps
  pages : ∀ page ∈ p.pages, Keeps Page.Storage page ∧ page.noElements = .list []
  elements : ∀ page ∈ p.pages, ∀ e ∈ page.elements, Keeps Element.Storage e ∧ e.KeepsExtra
  audios : ∀ c, p.composition = some c → ∀ a ∈ c.audios, Keeps Audio.Storage a
  notes : ∀ note ∈ p.notes, Keeps Note.Storage note
  currentTime : p.appState.currentTime ≠ .null
  zoomLevel : p.appState.zoomLevel ≠ .null
  extra : Beside Document.appStateKeys p.appState.extra

/-- The unknown entries of the elements and of the editor state have other keys than the known
ones. -/
structure Project.KeepsExtra (p : Project) : Prop where
  elements : ∀ page ∈ p.pages, ∀ e ∈ page.elements, e.KeepsExtra
  state : Beside Document.appStateKeys p.appState.extra

theorem Project.Storable.keepsExtra {p : Project} (h : p.Storable) : p.KeepsExtra where
  elements page hpage e he := (h.elements page hpage e he).2
  state := h.extra

/-! ## Writing and reading -/

/-- An element is told by its kind, its alignment, its unknown entries and the values of its
fields. -/
theorem Element.ext_get {d e : Element} (hkind : d.kind = e.kind)
    (halign : d.textAlign = e.textAlign) (hextra : d.extra = e.extra)
    (h : ∀ f, d.get f = e.get f) : d = e := by
  cases d
  cases e
  simp only [Element.mk.injEq]
  exact ⟨h .id, hkind, h .left, h .top, h .width, h .height, h .zIndex, h .text, h .src,
    h .fontSize, h .color, h .fontFamily, h .fontWeight, halign, h .opacity, h .rotation,
    h .delay, h .duration, h .animation, hextra⟩

namespace Document

theorem read_kindName (k : ElementKind) : ElementKind.read (.text k.name) = .ok k := by
  cases k <;> rfl

theorem alignment_alignValue (a : Option TextAlign) :
    alignment (Element.alignValue a) = .ok a := by
  rcases a with _ | _ | _ | _ <;> rfl

/-- The entries of an element that are known. -/
def elementEntries (e : Element) : Fields :=
  [("id", e.id), ("type", .text e.kind.name)] ++
    Element.Field.keyed.flatMap fun f => ifPresent f.key (e.get f)

theorem key_mem_elementKeys {f : Element.Field} (hf : f ∈ Element.Field.keyed) :
    f.key ∈ elementKeys := List.mem_append_right _ (List.mem_map_of_mem hf)

theorem mem_elementKeys {e : Element} {f : String × Value} (h : f ∈ elementEntries e) :
    f.1 ∈ elementKeys := by
  unfold elementEntries at h
  rcases List.mem_append.mp h with h | h
  · simp only [List.mem_cons, List.not_mem_nil, or_false] at h
    rcases h with rfl | rfl
    · exact List.mem_cons_self
    · exact List.mem_cons_of_mem _ List.mem_cons_self
  · obtain ⟨g, hg, h⟩ := List.mem_flatMap.mp h
    rw [eq_of_mem_ifPresent h]
    exact key_mem_elementKeys hg

theorem lookup_elementEntries (e : Element) {f : Element.Field} (hf : f ∈ Element.Field.keyed) :
    (elementEntries e).lookup f.key = (ifPresent f.key (e.get f)).lookup f.key := by
  have hkey : f.key ∉ ["id", "type"] := by
    revert f
    decide
  have hnodup : (Element.Field.keyed.map Element.Field.key).Nodup := by decide
  unfold elementEntries
  rw [List.lookup_append, Value.lookup_of_not_mem hkey, Option.none_or,
    lookup_flatMap e.get hnodup hf]

/-- The unknown entries do not stand before the known ones. -/
theorem lookup_beside {e : Element} {entries : Fields} (h : Beside elementKeys entries)
    {key : String} (hkey : key ∈ elementKeys) :
    (elementEntries e ++ entries).lookup key = (elementEntries e).lookup key := by
  refine Value.lookup_append_left fun hmem => ?_
  obtain ⟨f, hf, rfl⟩ := List.mem_map.mp hmem
  exact h.unknown f hf hkey

theorem entry_beside {e : Element} {entries : Fields} (h : Beside elementKeys entries)
    {f : Element.Field} (hf : f ∈ Element.Field.keyed) :
    Value.entry (elementEntries e ++ entries) f.key = e.get f := by
  rw [← entry_ifPresent f.key (e.get f)]
  unfold Value.entry
  rw [lookup_beside h (key_mem_elementKeys hf), lookup_elementEntries e hf]

theorem require_of_lookup {fields : Fields} {key what : String} {v : Value}
    (h : fields.lookup key = some v) : require (.object fields) key what = .ok v := by
  have hfind : find (.object fields) key = .ok (some v) := congrArg Except.ok h
  rw [require, hfind]
  rfl

theorem entryOr_eq {fields : Fields} {key : String} {absent v : Value}
    (h : Value.entry fields key = v) (hv : v ≠ .null) : entryOr fields key absent = v := by
  unfold entryOr
  rw [h]
  refine if_neg fun hnull => hv ?_
  cases v with
  | null => rfl
  | _ => cases hnull

theorem ofElement_eq {e : Element} {entries : Fields} (h : Beside elementKeys entries)
    (hentries : e.extra = { entries }) : ofElement e = .object (elementEntries e ++ entries) := by
  refine congrArg Value.object ?_
  rw [hentries]
  refine withExtra_eq h.nodup fun f hf hmem => ?_
  obtain ⟨g, hg, hgf⟩ := List.mem_map.mp hmem
  exact h.unknown f hf (hgf ▸ mem_elementKeys hg)

theorem element_ofElement {e : Element} (he : Keeps Element.Storage e) (hextra : e.KeepsExtra) :
    element (ofElement e) = .ok e := by
  obtain ⟨entries, hbeside, hentries⟩ := hextra
  obtain ⟨id, hid⟩ : e.id.IsText := he .id
  have hwritten := ofElement_eq hbeside hentries
  have hlookup : ∀ key ∈ elementKeys,
      (elementEntries e ++ entries).lookup key = (elementEntries e).lookup key :=
    fun _ => lookup_beside hbeside
  have hentry : ∀ f ∈ Element.Field.keyed,
      Value.entry (elementEntries e ++ entries) f.key = e.get f :=
    fun _ => entry_beside hbeside
  have hothers : others elementKeys (elementEntries e ++ entries) = entries :=
    others_append (fun _ => mem_elementKeys) hbeside.unknown
  rw [hwritten]
  generalize elementEntries e ++ entries = fields at hlookup hentry hothers
  have hreadId : require (.object fields) "id" "Element" = .ok (.text id) :=
    require_of_lookup ((hlookup "id" (by decide)).trans (congrArg some hid))
  have hreadKind : require (.object fields) "type" "Element" = .ok (.text e.kind.name) :=
    require_of_lookup (hlookup "type" (by decide))
  have hreadAlign : alignment (Value.entry fields "textAlign") = .ok e.textAlign := by
    rw [show Value.entry fields "textAlign" = _ from hentry .textAlign (by decide)]
    exact alignment_alignValue e.textAlign
  have hplace : ∀ f ∈ [Element.Field.left, .top, .width, .height],
      entryOr fields f.key (.int 0) = e.get f := by
    intro f hf
    refine entryOr_eq (hentry f (List.mem_append_left _ hf)) ?_
    simp only [List.mem_cons, List.not_mem_nil, or_false] at hf
    rcases hf with rfl | rfl | rfl | rfl
    · exact he .left
    · exact he .top
    · exact he .width
    · exact he .height
  unfold element
  simp only [hreadId, hreadKind, hreadAlign, read_kindName, asInvalid, fieldsOf, hothers, bind,
    Except.bind, pure, Except.pure]
  refine congrArg Except.ok (Element.ext_get rfl rfl hentries.symm fun f => ?_)
  have hplaced := hplace f
  have hkept := hentry f
  cases f with
  | id => exact hid.symm
  | kind => rfl
  | textAlign => rfl
  | extra => exact (congrArg Extra.value hentries).symm
  | left | top | width | height => exact hplaced (by decide)
  | _ => exact hkept (by decide)

theorem mapM_map {α : Type} {read : Value → Except Fault α} {write : α → Value} {xs : List α}
    (h : ∀ x ∈ xs, read (write x) = .ok x) : (xs.map write).mapM read = .ok xs :=
  mapM_eq_ok.mpr (List.forall₂_map_left_iff.mpr (List.forall₂_same.mpr h))

theorem page_ofPage {page : Page} (h : Keeps Page.Storage page) (hnone : page.noElements = .list [])
    (helements : ∀ e ∈ page.elements, element (ofElement e) = .ok e) :
    Document.page (ofPage page) = .ok page := by
  obtain ⟨id, hid⟩ : page.id.IsText := h .id
  obtain ⟨n, hduration⟩ : ∃ n, page.duration = .int n := h .duration
  have hread := mapM_map helements
  obtain ⟨_, name, _, color, es, _⟩ := page
  dsimp only at hid hduration hnone hread
  subst hid hduration hnone
  have hsteps : Document.page (ofPage ⟨.text id, name, .int n, color, es, .list []⟩) = (do
      let elements ← (es.map ofElement).mapM element
      return ⟨.text id, name, .int n, color, elements, .list []⟩) := by
    cases color <;> rfl
  rw [hsteps, hread]
  rfl

theorem audio_ofAudio {a : Audio} (h : Keeps Audio.Storage a) : audio (ofAudio a) = .ok a := by
  obtain ⟨id, hid⟩ : a.id.IsText := h .id
  cases a
  dsimp only at hid
  subst hid
  rfl

theorem note_ofNote {note : Note} (h : Keeps Note.Storage note) :
    Document.note (ofNote note) = .ok note := by
  obtain ⟨id, hid⟩ : note.id.IsText := h .id
  obtain ⟨n, htime⟩ : ∃ n, note.time = .int n := h .time
  obtain ⟨_, _, _, _, updatedAt⟩ := note
  dsimp only at hid htime
  subst hid htime
  cases updatedAt <;> rfl

theorem orEmpty_list (items : List Value) : orEmpty (.list items) = .list items := by
  cases items <;> rfl

theorem composition_ofComposition {c : Composition} (hfps : 0 < c.fps)
    (hpages : ∀ page ∈ c.pages, Document.page (ofPage page) = .ok page)
    (haudios : ∀ a ∈ c.audios, audio (ofAudio a) = .ok a) :
    composition (ofComposition c) = .ok c := by
  have hrate : (Value.int c.fps).isTruthy = true := by
    simpa [Value.isTruthy] using Int.ne_of_gt hfps
  have hsteps : composition (ofComposition c) = (do
      let fps ← wholeNumber
        (if (Value.int c.fps).isTruthy then .int c.fps else .int Limits.defaultFps)
      if fps ≤ 0 then
        .error (.problem (.invalidDocument
          ("Composition fps must be positive, got " ++ toString fps)))
      let pages ← (orEmpty (.list (c.pages.map ofPage))).sequence
      let pages ← pages.mapM Document.page
      let audios ← (orEmpty (.list (c.audios.map ofAudio))).sequence
      return {
        fps, width := c.width, height := c.height, pages, audios := ← audios.mapM audio }) := rfl
  rw [hsteps, if_pos hrate, orEmpty_list, orEmpty_list]
  simp only [wholeNumber, Value.sequence, bind, Except.bind, mapM_map hpages, mapM_map haudios,
    if_neg (Int.not_le.mpr hfps)]
  rfl

/-- The entries of an editor state that are known. -/
def appStateEntries (s : AppState) : Fields :=
  [("selectedPageId", s.selectedPageId), ("selectedElementId", s.selectedElementId),
   ("currentTime", s.currentTime), ("zoomLevel", s.zoomLevel)]

theorem ofAppState_eq {s : AppState} (h : Beside appStateKeys s.extra) :
    ofAppState s = .object (appStateEntries s ++ s.extra) :=
  congrArg Value.object (withExtra_eq h.nodup h.unknown)

theorem appState_ofAppState {s : AppState} (htime : s.currentTime ≠ .null)
    (hzoom : s.zoomLevel ≠ .null) (hextra : Beside appStateKeys s.extra) :
    appState (ofAppState s) = .ok s := by
  let known := appStateEntries s
  have hothers : others appStateKeys (known ++ s.extra) = s.extra := by
    refine others_append (fun f hf => ?_) hextra.unknown
    exact List.mem_map_of_mem (f := Prod.fst) hf
  have htime' : entryOr (known ++ s.extra) "currentTime" (.int 0) = s.currentTime :=
    entryOr_eq rfl htime
  have hzoom' : entryOr (known ++ s.extra) "zoomLevel" (.float (Binary64.ofInt 1)) = s.zoomLevel :=
    entryOr_eq rfl hzoom
  have hid : ∀ v : Value, (if v.isNull then Value.null else v) = v := by
    intro v
    cases v <;> rfl
  rw [ofAppState_eq hextra]
  have hsteps : appState (.object (known ++ s.extra)) = .ok {
    selectedPageId := if s.selectedPageId.isNull then .null else s.selectedPageId
    selectedElementId := if s.selectedElementId.isNull then .null else s.selectedElementId
    currentTime := entryOr (known ++ s.extra) "currentTime" (.int 0)
    zoomLevel := entryOr (known ++ s.extra) "zoomLevel" (.float (Binary64.ofInt 1))
    extra := others appStateKeys (known ++ s.extra) } := rfl
  rw [hsteps, hid, hid, htime', hzoom', hothers]

/-- The document of a project is read as this project, with the notes as they are read. -/
theorem project_ofProject_eq {p : Project} (h : Project.Storable { p with notes := [] }) :
    project (ofProject p) = invalidIfBad (do
      let notes ← (p.notes.map ofNote).mapM note
      return { p with notes }) := by
  have hpages (page : Page) (hpage : page ∈ p.pages) : Document.page (ofPage page) = .ok page := by
    obtain ⟨hkeeps, hnone⟩ := h.pages page hpage
    refine page_ofPage hkeeps hnone fun e he => ?_
    obtain ⟨hkeeps, hextra⟩ := h.elements page hpage e he
    exact element_ofElement hkeeps hextra
  have hcomposition :
      composition? ((p.composition.map ofComposition).getD .null) = .ok p.composition := by
    cases hc : p.composition with
    | none => rfl
    | some c =>
        have hread := composition_ofComposition (h.composition c hc)
          (fun page hpage => hpages page (Project.pages_eq hc ▸ hpage))
          (fun a ha => audio_ofAudio (h.audios c hc a ha))
        have hsteps :
            composition? (ofComposition c) = (composition (ofComposition c)).map some := rfl
        rw [Option.map_some, Option.getD_some, hsteps, hread]
        rfl
  have hstate := appState_ofAppState h.currentTime h.zoomLevel h.extra
  dsimp only at hstate
  have hsteps : project (ofProject p) = invalidIfBad (do
      let composition ← composition? ((p.composition.map ofComposition).getD .null)
      let notes ← (orEmpty (.list (p.notes.map ofNote))).sequence
      let notes ← notes.mapM note
      let appState ← appState (ofAppState p.appState)
      return { id := p.id, name := p.name, composition, notes, appState }) := rfl
  rw [hsteps, hcomposition, orEmpty_list, hstate]
  rfl

theorem project_ofProject {p : Project} (h : p.Storable) : project (ofProject p) = .ok p := by
  have hparts : Project.Storable { p with notes := [] } := { h with notes := nofun }
  have hnotes := mapM_map fun note hnote => note_ofNote (h.notes note hnote)
  rw [project_ofProject_eq hparts]
  simp only [bind, Except.bind, hnotes]
  rfl

end Document

/-! ## What was read -/

namespace Value

/-- What holds of the values of all entries, and of the one for an absent entry, holds of the
value that is looked up. -/
theorem getD_lookup {P : Value → Prop} {fields : List (String × Value)} {absent : Value}
    (key : String) (h : ∀ f ∈ fields, P f.2) (habsent : P absent) :
    P ((fields.lookup key).getD absent) := by
  cases hv : fields.lookup key with
  | none => exact habsent
  | some v => exact h _ (mem_of_lookup hv)

/-- The items of a sequence are those of a list, or scalars. -/
theorem mem_sequence {v w : Value} {items : List Value} (hitems : v.sequence = .ok items)
    (hw : w ∈ items) : v = .list items ∨ (∃ s, w = .text s) ∨ ∃ n, w = .int n := by
  cases v with
  | list vs =>
      cases hitems
      exact .inl rfl
  | object fields =>
      cases hitems
      obtain ⟨_, _, rfl⟩ := List.mem_map.mp hw
      exact .inr (.inl ⟨_, rfl⟩)
  | text s =>
      cases hitems
      obtain ⟨_, _, rfl⟩ := List.mem_map.mp hw
      exact .inr (.inl ⟨_, rfl⟩)
  | bytes bs =>
      cases hitems
      obtain ⟨_, _, rfl⟩ := List.mem_map.mp hw
      exact .inr (.inr ⟨_, rfl⟩)
  | _ => cases hitems

/-- A property of values without parts, `nan` and the infinities apart, and of the values all of
whose parts have it. -/
structure Hereditary (P : Value → Prop) : Prop where
  null : P .null
  bool (b : Bool) : P (.bool b)
  int (n : Int) : P (.int n)
  float {x : Binary64} : x.isFinite = true → P (.float x)
  text (s : String) : P (.text s)
  list {items : List Value} : P (.list items) ↔ ∀ v ∈ items, P v
  object {fields : List (String × Value)} :
    (fields.map Prod.fst).Nodup → (∀ f ∈ fields, P f.2) → P (.object fields)
  entries {fields : List (String × Value)} : P (.object fields) → ∀ f ∈ fields, P f.2
  filter {fields : List (String × Value)} (keep : String × Value → Bool) :
    P (.object fields) → P (.object (fields.filter keep))

namespace Hereditary

variable {P : Value → Prop} {v : Value}

theorem nil (hP : Hereditary P) : P (.list []) := hP.list.mpr nofun

theorem sequence (hP : Hereditary P) (h : P v) {items : List Value}
    (hitems : v.sequence = .ok items) : ∀ w ∈ items, P w := by
  intro w hw
  rcases mem_sequence hitems hw with rfl | ⟨s, rfl⟩ | ⟨n, rfl⟩
  · exact hP.list.mp h w hw
  · exact hP.text s
  · exact hP.int n

theorem orEmpty (hP : Hereditary P) (h : P v) : P (Document.orEmpty v) := by
  unfold Document.orEmpty
  split
  · exact h
  · exact hP.nil

end Hereditary

theorem Keyed.hereditary : Hereditary Keyed where
  null := .null
  bool := .bool
  int := .int
  float _ := .float _
  text := .text
  list := ⟨fun | .list h => h, .list⟩
  object := .object
  entries := fun | .object _ h => h
  filter _ := fun
    | .object hnodup h => .object ((List.filter_sublist.map _).nodup hnodup)
        fun f hf => h f (List.mem_filter.mp hf).1

end Value

namespace Document

variable {v : Value}

theorem entryOr_ne_null {fields : Fields} {key : String} {absent : Value} (h : absent ≠ .null) :
    entryOr fields key absent ≠ .null := by
  unfold entryOr
  dsimp only
  split
  · exact h
  · rename_i hnull
    intro heq
    rw [heq] at hnull
    exact hnull rfl

/-- The fields of an element that are zero where the document gives none. -/
def places : List Element.Field := [.left, .top, .width, .height]

/-- The element is what the entries of an object give. -/
structure Gives (fields : Fields) (e : Element) : Prop where
  kind : ∃ w, fields.lookup "type" = some w ∧ ElementKind.read w = .ok e.kind
  textAlign : alignment (Value.entry fields "textAlign") = .ok e.textAlign
  id : ∃ w, fields.lookup "id" = some w ∧ e.id = .text w.display
  extra : e.extra = { entries := others elementKeys fields }
  get : ∀ f ∈ Element.Field.keyed, f ≠ .textAlign →
    e.get f = entryOr fields f.key (if f ∈ places then .int 0 else .null)

theorem entryOr_null (fields : Fields) (key : String) :
    entryOr fields key .null = Value.entry fields key := by
  unfold entryOr
  cases Value.entry fields key <;> rfl

theorem asInvalid_eq_ok {α : Type} {x : Except Fault α} {a : α} (h : asInvalid x = .ok a) :
    x = .ok a := by
  cases x with
  | ok _ => exact h
  | error f =>
      unfold asInvalid at h
      dsimp only at h
      split at h <;> cases h

/-- Only an object gives an element. -/
theorem element_eq_ok {e : Element} (h : element v = .ok e) :
    ∃ fields, v = .object fields ∧ Gives fields e := by
  unfold element at h
  simp only [bind_eq_ok, pure_eq_ok] at h
  obtain ⟨kind, hkind, fields, hfields, align, halign, id, hid, rfl⟩ := h
  obtain rfl := fieldsOf_eq_ok hfields
  obtain ⟨_, ⟨⟩, hid⟩ := require_object hid
  obtain ⟨w, hw, hkind⟩ := bind_eq_ok.mp (asInvalid_eq_ok hkind)
  obtain ⟨_, ⟨⟩, hw⟩ := require_object hw
  refine ⟨fields, rfl, ⟨w, hw, hkind⟩, asInvalid_eq_ok halign, ⟨id, hid, rfl⟩, rfl, ?_⟩
  intro f hf halign
  cases f with
  | id | kind | extra => exact absurd hf (by decide)
  | textAlign => exact absurd rfl halign
  | left | top | width | height => rfl
  | _ => exact (entryOr_null fields _).symm

theorem element_storable {e : Element} (h : element v = .ok e) (hv : v.Keyed) :
    Keeps Element.Storage e ∧ e.KeepsExtra := by
  obtain ⟨fields, rfl, hgives⟩ := element_eq_ok h
  have hplace : ∀ f ∈ places, e.get f ≠ .null := by
    intro f hf
    have hkeyed : f ∈ Element.Field.keyed ∧ f ≠ .textAlign := by
      revert f
      decide
    rw [hgives.get f hkeyed.1 hkeyed.2, if_pos hf]
    exact entryOr_ne_null nofun
  cases hv with
  | object hnodup _ =>
      refine ⟨fun f => ?_, _, others_beside hnodup, hgives.extra⟩
      cases f with
      | id =>
          obtain ⟨w, -, hid⟩ := hgives.id
          exact ⟨_, hid⟩
      | left | top | width | height => exact hplace _ (by decide)
      | _ => trivial

theorem page_stores {page : Page} (h : Document.page v = .ok page) :
    Keeps Page.Storage page ∧ page.noElements = .list [] := by
  unfold Document.page at h
  simp only [bind_eq_ok, pure_eq_ok] at h
  obtain ⟨id, -, fields, -, n, -, vs, -, es, -, rfl⟩ := h
  refine ⟨fun f => ?_, rfl⟩
  cases f with
  | id => exact Value.isText_text _
  | duration => exact ⟨n, rfl⟩
  | _ => trivial

theorem page_storable {page : Page} (h : Document.page v = .ok page) (hv : v.Keyed) :
    (Keeps Page.Storage page ∧ page.noElements = .list []) ∧
      ∀ e ∈ page.elements, Keeps Element.Storage e ∧ e.KeepsExtra := by
  refine ⟨page_stores h, fun e he => ?_⟩
  unfold Document.page at h
  simp only [bind_eq_ok, pure_eq_ok] at h
  obtain ⟨id, -, fields, hfields, n, -, vs, hvs, es, hes, rfl⟩ := h
  obtain rfl := fieldsOf_eq_ok hfields
  cases hv with
  | object _ hkeyed =>
      have hP := Value.Keyed.hereditary
      obtain ⟨w, hw, hread⟩ := exists_of_mem_mapM hes he
      exact element_storable hread
        (hP.sequence (Value.getD_lookup _ hkeyed hP.nil) hvs w hw)

theorem audio_storable {a : Audio} (h : audio v = .ok a) : Keeps Audio.Storage a := by
  intro f
  cases f with
  | id => exact audio_id h
  | _ => trivial

theorem note_storable {note : Note} (h : Document.note v = .ok note) : Keeps Note.Storage note := by
  unfold Document.note at h
  simp only [bind_eq_ok, pure_eq_ok] at h
  obtain ⟨id, -, fields, -, n, -, rfl⟩ := h
  intro f
  cases f with
  | id => exact Value.isText_text _
  | time => exact ⟨n, rfl⟩
  | _ => trivial

theorem composition_storable {c : Composition} (h : composition v = .ok c) (hv : v.Keyed) :
    0 < c.fps ∧
      (∀ page ∈ c.pages, (Keeps Page.Storage page ∧ page.noElements = .list []) ∧
        ∀ e ∈ page.elements, Keeps Element.Storage e ∧ e.KeepsExtra) ∧
      ∀ a ∈ c.audios, Keeps Audio.Storage a := by
  unfold composition at h
  simp only [bind_eq_ok, pure_eq_ok, error_bind, guard_eq_ok] at h
  obtain ⟨fields, hfields, fps, -, hfps, _, -, _, -, vs, hvs, pages, hpages, _, -, audios,
    haudios, rfl⟩ := h
  obtain rfl := fieldsOf_eq_ok hfields
  cases hv with
  | object _ hkeyed =>
      have hP := Value.Keyed.hereditary
      refine ⟨Int.not_le.mp hfps, fun page hpage => ?_, fun a ha => ?_⟩
      · obtain ⟨w, hw, hread⟩ := exists_of_mem_mapM hpages hpage
        exact page_storable hread
          (hP.sequence (hP.orEmpty (Value.getD_lookup _ hkeyed .null)) hvs w hw)
      · obtain ⟨w, -, hread⟩ := exists_of_mem_mapM haudios ha
        exact audio_storable hread

/-- The editor state that a value gives; what is no object gives the initial one. -/
theorem appState_eq_ok {s : AppState} (h : appState v = .ok s) :
    s = {
      selectedPageId := entryOr (entriesOf v) "selectedPageId" .null
      selectedElementId := entryOr (entriesOf v) "selectedElementId" .null
      currentTime := entryOr (entriesOf v) "currentTime" (.int 0)
      zoomLevel := entryOr (entriesOf v) "zoomLevel" (.float (Binary64.ofInt 1))
      extra := others appStateKeys (entriesOf v) } := by
  unfold appState at h
  split at h
  · obtain ⟨fields, hfields, h⟩ := bind_eq_ok.mp h
    obtain rfl := fieldsOf_eq_ok hfields
    cases h
    rfl
  · rename_i hempty
    have hnone : entriesOf v = [] := by
      cases v with
      | object fields => simpa [Value.isTruthy, entriesOf] using hempty
      | _ => rfl
    rw [hnone]
    cases h
    rfl

theorem appState_storable {s : AppState} (h : appState v = .ok s) (hv : v.Keyed) :
    s.currentTime ≠ .null ∧ s.zoomLevel ≠ .null ∧ Beside appStateKeys s.extra := by
  obtain rfl := appState_eq_ok h
  refine ⟨entryOr_ne_null nofun, entryOr_ne_null nofun, others_beside ?_⟩
  cases hv with
  | object hnodup _ => exact hnodup
  | _ => exact List.nodup_nil

/-- Every project that was read can be written and read back. -/
theorem project_storable {p : Project} (h : project v = .ok p) (hv : v.Keyed) : p.Storable := by
  unfold project at h
  split at h
  · rename_i fields
    have h := invalidIfBad_eq_ok h
    unfold projectOf at h
    simp only [bind_eq_ok, pure_eq_ok] at h
    obtain ⟨c, hc, _, -, notes, hnotes, state, hstate, rfl⟩ := h
    cases hv with
    | object _ hkeyed =>
        have hentry : ∀ key, (Value.entry fields key).Keyed :=
          fun key => Value.getD_lookup key hkeyed .null
        have hparts := fun d (hd : c = some d) =>
          composition_storable (composition?_eq_some (hd ▸ hc)) (hentry "composition")
        obtain ⟨htime, hzoom, hextra⟩ := appState_storable hstate (hentry "appState")
        refine ⟨fun d hd => (hparts d hd).1, ?pages, ?elements, fun d hd => (hparts d hd).2.2,
          ?notes, htime, hzoom, hextra⟩
        case pages =>
          intro page hpage
          cases c with
          | none => cases hpage
          | some d => exact ((hparts d rfl).2.1 page hpage).1
        case elements =>
          intro page hpage
          cases c with
          | none => cases hpage
          | some d => exact ((hparts d rfl).2.1 page hpage).2
        case notes =>
          intro note hnote
          obtain ⟨w, -, hread⟩ := exists_of_mem_mapM hnotes hnote
          exact note_storable hread
  · cases h

end Document

end Montage
