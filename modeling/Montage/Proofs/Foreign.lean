/-
# Entries that the editor does not know

A document may have entries that the editor does not know, in each of its objects.  Those of the
elements and of the editor state are kept, those of all other objects are left out when the project
is saved (`Host.saved_carries`):

    editor state, element           kept with their values, in their order
    project, composition, page,
    audio track, note               a saved object has known entries only

So entries of an element that are not in the file any more were deleted with the element or with
its page, and by a command that deletes.
-/
import Montage.Proofs.Inventory
import Montage.Proofs.Reopen

namespace Montage

theorem Value.Plain.object_iff {fields : List (String × Value)} : (Value.object fields).Plain ↔
    (fields.map Prod.fst).Nodup ∧ ∀ f ∈ fields, f.2.Plain :=
  ⟨fun | .object hnodup h => ⟨hnodup, h⟩, fun h => .object h.1 h.2⟩

namespace Document

/-! ## Entries by their objects -/

/-- The id that an object has. -/
def idIn (v : Value) : Value := .text (Value.entry (entriesOf v) "id").display

/-- The document of the composition. -/
def compositionIn (v : Value) : Value := Value.entry (entriesOf v) "composition"

/-- The documents of the pages. -/
def pagesIn (v : Value) : List Value := itemsOf (Value.entry (entriesOf (compositionIn v)) "pages")

/-- The documents of the audio tracks. -/
def audiosIn (v : Value) : List Value :=
  itemsOf (Value.entry (entriesOf (compositionIn v)) "audios")

/-- The documents of the notes. -/
def notesIn (v : Value) : List Value := itemsOf (Value.entry (entriesOf v) "notes")

/-- The documents of the elements of a page. -/
def elementsIn (page : Value) : List Value := itemsOf (Value.entry (entriesOf page) "elements")

/-- The id of an element and the entries that it has beside the known ones. -/
def markIn (v : Value) : Mark := (idIn v, others elementKeys (entriesOf v))

/-- What the elements have beside the known entries, under the ids of their pages. -/
def inventoryIn (v : Value) : Inventory :=
  (pagesIn v).map fun page => (idIn page, (elementsIn page).map markIn)

/-- What the editor state has beside the known entries. -/
def stateExtraIn (v : Value) : Fields :=
  others appStateKeys (entriesOf (Value.entry (entriesOf v) "appState"))

/-- The keys of a project. -/
def projectKeys : List String := ["id", "name", "composition", "notes", "appState"]

/-- The keys of a composition. -/
def compositionKeys : List String := ["fps", "width", "height", "pages", "audios"]

/-- What the project, the composition, the pages, the audio tracks and the notes have beside the
known entries. -/
def looseIn (v : Value) : Fields :=
  others projectKeys (entriesOf v) ++
  others compositionKeys (entriesOf (compositionIn v)) ++
  (pagesIn v).flatMap (others (Page.Field.all.map Page.Field.key) <| entriesOf ·) ++
  (audiosIn v).flatMap (others (Audio.Field.all.map Audio.Field.key) <| entriesOf ·) ++
  (notesIn v).flatMap (others (Note.Field.all.map Note.Field.key) <| entriesOf ·)

/-- What becomes of the entries that the editor does not know, when a command turns the document
`v` into `v'`. -/
structure Carries (name : String) (id : Value) (v v' : Value) : Prop where
  state : stateExtraIn v' = stateExtraIn v
  elements : Inventory.Retains name id (inventoryIn v) (inventoryIn v')
  others : looseIn v' = []

/-- The text of a file holds the document. -/
def Holds (text : String) (v : Value) : Prop :=
  Json.read (String.ofList (lineFeeds text.toList)) = .ok v

/-! ## Reading -/

section Reading
variable {v : Value} {fields : Fields} {vs : List Value}

theorem idIn_of_lookup {id : Value} (h : fields.lookup "id" = some id) :
    idIn (.object fields) = .text id.display := by
  rw [idIn, entriesOf, Value.entry, h]
  rfl

theorem itemsOf_eq (h : v.sequence = .ok vs) : itemsOf v = vs := by
  rw [itemsOf, h]

/-- An absent entry gives no items, like an empty list. -/
theorem itemsOf_entry {key : String}
    (h : ((fields.lookup key).getD (.list [])).sequence = .ok vs) :
    itemsOf (Value.entry fields key) = vs := by
  unfold Value.entry
  cases hv : fields.lookup key with
  | none =>
      rw [hv] at h
      cases h
      rfl
  | some v =>
      rw [hv] at h
      exact itemsOf_eq h

/-- What is empty gives no items, whatever it is. -/
theorem itemsOf_of_orEmpty (h : (orEmpty v).sequence = .ok vs) : itemsOf v = vs := by
  unfold orEmpty at h
  split at h
  · exact itemsOf_eq h
  · rename_i hempty
    cases h
    cases v with
    | list items => simpa [Value.isTruthy, itemsOf, Value.sequence] using hempty
    | object fields => simpa [Value.isTruthy, itemsOf, Value.sequence] using hempty
    | text s => simpa [Value.isTruthy, itemsOf, Value.sequence] using hempty
    | bytes bs => simpa [Value.isTruthy, itemsOf, Value.sequence] using hempty
    | _ => rfl

theorem mark_of_element {e : Element} (h : element v = .ok e) : e.mark = markIn v := by
  obtain ⟨fields, rfl, hgives⟩ := element_eq_ok h
  obtain ⟨id, hlookup, hid⟩ := hgives.id
  rw [markIn, idIn_of_lookup hlookup, Element.mark, hid, hgives.extra]
  rfl

theorem marks_of_page {page : Page} (h : Document.page v = .ok page) :
    (page.id, page.marks) = (idIn v, (elementsIn v).map markIn) := by
  unfold Document.page at h
  simp only [bind_eq_ok, pure_eq_ok] at h
  obtain ⟨id, hid, fields, hfields, _, -, vs, hvs, es, hes, rfl⟩ := h
  obtain rfl := fieldsOf_eq_ok hfields
  obtain ⟨_, ⟨⟩, hlookup⟩ := require_object hid
  have helements : elementsIn (.object fields) = vs := itemsOf_entry hvs
  rw [idIn_of_lookup hlookup, helements, Page.marks, map_of_mapM hes fun _ _ => mark_of_element]

theorem pages_of_composition {c : Composition} (h : composition v = .ok c) :
    (itemsOf (Value.entry (entriesOf v) "pages")).mapM Document.page = .ok c.pages := by
  unfold composition at h
  simp only [bind_eq_ok, pure_eq_ok, error_bind, guard_eq_ok] at h
  obtain ⟨fields, hfields, _, -, -, _, -, _, -, vs, hvs, pages, hpages, _, -, _, -, rfl⟩ := h
  obtain rfl := fieldsOf_eq_ok hfields
  rw [entriesOf, itemsOf_of_orEmpty hvs]
  exact hpages

theorem composition?_eq_none (h : composition? v = .ok none) : v = .null := by
  unfold composition? at h
  split at h
  · rename_i hnull
    cases v with
    | null => rfl
    | _ => cases hnull
  · obtain ⟨_, -, hc⟩ := map_eq_ok.mp h
    cases hc

/-- The composition and the editor state of a project that was read. -/
theorem project_parts {p : Project} (h : project v = .ok p) :
    composition? (compositionIn v) = .ok p.composition ∧
      appState (Value.entry (entriesOf v) "appState") = .ok p.appState := by
  unfold project at h
  split at h
  · rename_i fields
    have h := invalidIfBad_eq_ok h
    unfold projectOf at h
    simp only [bind_eq_ok, pure_eq_ok] at h
    obtain ⟨_, hc, _, -, _, -, _, hstate, rfl⟩ := h
    exact ⟨hc, hstate⟩
  · cases h

theorem pages_of_project {p : Project} (h : project v = .ok p) :
    (pagesIn v).mapM Document.page = .ok p.pages := by
  obtain ⟨hc, -⟩ := project_parts h
  cases hcomposition : p.composition with
  | some c =>
      rw [hcomposition] at hc
      rw [Project.pages_eq hcomposition]
      exact pages_of_composition (composition?_eq_some hc)
  | none =>
      rw [hcomposition] at hc
      have hnull : compositionIn v = .null := composition?_eq_none hc
      have hpages : p.pages = [] := by
        unfold Project.pages
        rw [hcomposition]
      rw [pagesIn, hnull, hpages]
      rfl

theorem inventory_of_project {p : Project} (h : project v = .ok p) :
    p.inventory = inventoryIn v :=
  map_of_mapM (pages_of_project h) fun _ _ => marks_of_page

theorem stateExtra_of_project {p : Project} (h : project v = .ok p) :
    p.appState.extra = stateExtraIn v :=
  congrArg AppState.extra (appState_eq_ok (project_parts h).2)

end Reading

/-! ## Writing -/

section Writing
variable {q : Project}

theorem mark_ofElement {e : Element} (hid : e.id.IsText) (hextra : e.KeepsExtra) :
    markIn (ofElement e) = e.mark := by
  obtain ⟨entries, hbeside, hentries⟩ := hextra
  obtain ⟨id, hid⟩ := hid
  have hlookup : (elementEntries e ++ entries).lookup "id" = some (.text id) :=
    (lookup_beside hbeside (by decide)).trans (congrArg some hid)
  rw [ofElement_eq hbeside hentries, markIn, idIn_of_lookup hlookup, entriesOf,
    others_append (fun _ => mem_elementKeys) hbeside.unknown, Element.mark, hid, hentries]
  rfl

theorem elementsIn_ofPage (page : Page) :
    elementsIn (ofPage page) = page.elements.map ofElement := by
  obtain ⟨_, _, _, color, _, _⟩ := page
  cases color <;> rfl

theorem pagesIn_ofProject (q : Project) : pagesIn (ofProject q) = q.pages.map ofPage := by
  obtain ⟨_, _, _ | _, _, _⟩ := q <;> rfl

theorem inventory_ofProject (h : Project.Storable { q with notes := [] }) :
    inventoryIn (ofProject q) = q.inventory := by
  rw [inventoryIn, pagesIn_ofProject, List.map_map, Project.inventory]
  refine List.map_congr_left fun page hpage => ?_
  obtain ⟨id, hid⟩ : page.id.IsText := (h.pages page hpage).1 .id
  have hmarks : (page.elements.map ofElement).map markIn = page.marks := by
    rw [List.map_map, Page.marks]
    refine List.map_congr_left fun e he => ?_
    obtain ⟨hkeeps, hextra⟩ := h.elements page hpage e he
    exact mark_ofElement (hkeeps .id) hextra
  have hlookup : (entriesOf (ofPage page)).lookup "id" = some (.text id) := congrArg some hid
  have hpageId : idIn (ofPage page) = page.id := by
    rw [hid]
    exact idIn_of_lookup hlookup
  rw [Function.comp_apply, elementsIn_ofPage, hmarks, hpageId]

theorem stateExtra_ofProject (h : Beside appStateKeys q.appState.extra) :
    stateExtraIn (ofProject q) = q.appState.extra := by
  have hstate : Value.entry (entriesOf (ofProject q)) "appState" = ofAppState q.appState := rfl
  rw [stateExtraIn, hstate, ofAppState_eq h, entriesOf]
  exact others_append (fun f hf => List.mem_map_of_mem (f := Prod.fst) hf) h.unknown

/-- A document has no unknown entries but for those of the elements and of the editor state. -/
theorem looseIn_ofProject (q : Project) : looseIn (ofProject q) = [] := by
  have hproject : others projectKeys (entriesOf (ofProject q)) = [] := rfl
  have hcomposition : others compositionKeys (entriesOf (compositionIn (ofProject q))) = [] := by
    obtain ⟨_, _, _ | _, _, _⟩ := q <;> rfl
  have hpages (page : Page) :
      others (Page.Field.all.map Page.Field.key) (entriesOf (ofPage page)) = [] := by
    obtain ⟨_, _, _, color, _, _⟩ := page
    cases color <;> rfl
  have haudios (a : Audio) :
      others (Audio.Field.all.map Audio.Field.key) (entriesOf (ofAudio a)) = [] := rfl
  have hnotes (note : Note) :
      others (Note.Field.all.map Note.Field.key) (entriesOf (ofNote note)) = [] := by
    obtain ⟨_, _, _, _, updatedAt⟩ := note
    cases updatedAt <;> rfl
  have haudiosIn : ∃ audios : List Audio, audiosIn (ofProject q) = audios.map ofAudio := by
    obtain ⟨_, _, _ | c, _, _⟩ := q
    · exact ⟨[], rfl⟩
    · exact ⟨c.audios, rfl⟩
  have hnotesIn : notesIn (ofProject q) = q.notes.map ofNote := rfl
  obtain ⟨audios, haudiosIn⟩ := haudiosIn
  rw [looseIn, hproject, hcomposition, pagesIn_ofProject, haudiosIn, hnotesIn]
  simp only [List.flatMap_map, hpages, haudios, hnotes, List.flatMap_eq_nil_iff, List.append_nil,
    implies_true, List.append_eq_nil_iff, and_self]

end Writing

/-! ## Files -/

theorem exists_holds_of_load {size : Nat} {text : String} {p : Project}
    (h : load size text = .ok p) : ∃ v, Holds text v ∧ project v = .ok p := by
  unfold load parse at h
  obtain ⟨-, h⟩ := guard_eq_ok.mp h
  split at h
  · rename_i v hread
    exact ⟨v, hread, h⟩
  · cases h

theorem holds_fileText {q : Project} {s : String} (hq : q.Writable) (hs : fileText q = .ok s) :
    Holds s (ofProject q) := by
  rw [fileText_eq hq, Except.ok.injEq] at hs
  rw [← hs]
  exact read_print (hq.plain.document hq.extra)

end Document

namespace Host

open Document (Holds)

variable {h : Host} {w : World} {args : List (String × Value)} {path : Path} {q : Project}

/-- After a command that changed the project of a file, the saved document has the same unknown
entries of the editor state, and of each element, as the one that was opened, but for the elements
that the command deleted.  The other objects have no unknown entries any more. -/
theorem saved_carries (hcatalog : h.session.catalog = Builtin.catalog)
    (hr : h.Revises w args path q) :
    ∃ file p line command tokens v s v',
      w.files.find path = .ok (some (.file file)) ∧ Files.load file = .ok p ∧
      args.lookup "command" = some (.text line) ∧ Calls line command tokens ∧
      ((h.call "run_command" args).run w).2.files.node? path = some (.file { text := s }) ∧
      Holds file.text v ∧ Holds s v' ∧
      Document.Carries command.name (h.outcome w args p line).entityId v v' := by
  obtain ⟨s, hs, hnode⟩ := node_of_revises hcatalog hr
  have hwritable := writable_of_revises hcatalog hr
  obtain @⟨_, file, p, line, -, hfile, hload, hline, -, hrevised⟩ := hr
  have hp := Document.storable_of_load hload
  obtain ⟨v, hv, hproject⟩ := Document.exists_holds_of_load hload
  rw [outcome_eq hcatalog] at hrevised
  rcases Session.answer_cases h.session.ids
      (h.collaborators w.files (entryD args "confirm" (.bool false)).isTruthy) (some p) line
      { drawn := w.drawn } with hrefuses | ⟨command, tokens, hcalls, -, heffect⟩
  · rw [hrefuses.revised] at hrevised
    cases hrevised
  have horigin := heffect.origin (p := p) rfl
  have hretains := heffect.retains (p := p) rfl (Document.project_textIds hproject)
  rw [hrevised, Option.getD_some] at horigin hretains
  refine ⟨file, p, line, command, tokens, v, s, Document.ofProject q, existing_find hfile, hload,
    hline, hcalls, hnode, hv, Document.holds_fileText hwritable hs, ?_⟩
  have hstored : Project.Storable { q with notes := [] } := horigin.storable_withNotes hp nofun
  constructor
  case state =>
    rw [Document.stateExtra_ofProject (q := q) hstored.extra,
      ← Document.stateExtra_of_project hproject]
    exact horigin.extra
  case elements =>
    rw [Document.inventory_ofProject hstored, ← Document.inventory_of_project hproject,
      outcome_eq hcatalog]
    exact hretains
  case others => exact Document.looseIn_ofProject q

/-! ## A file with unknown entries -/

/-- A project with an unknown entry in each object. -/
def markedDocument : Value :=
  .object [
    ("ofProject", .int 1),
    ("composition", .object [
      ("ofComposition", .int 2),
      ("pages", .list [.object [
        ("id", .text "page"), ("ofPage", .int 3),
        ("elements", .list [.object [
          ("id", .text "text"), ("type", .text "text"), ("ofElement", .int 4)]])]]),
      ("audios", .list [.object [("id", .text "track"), ("ofTrack", .int 5)]])]),
    ("notes", .list [.object [("id", .text "note"), ("ofNote", .int 6)]]),
    ("appState", .object [("ofState", .int 7)])]

theorem markedDocument_plain : markedDocument.Plain := by
  simp [markedDocument, Value.Plain.object_iff, Value.Plain.hereditary.list, Value.Plain.int,
    Value.Plain.text]

/-- The text of this project. -/
def markedText : String := Json.print markedDocument ++ "\n"

/-- A world whose only file holds this project. -/
def markedWorld : World := { files := ⟨[(onlyFile, .file { text := markedText })]⟩ }

/-- A zoom in the project in the only file. -/
def zoomHalf : List (String × Value) :=
  [("project_path", .text "a.json"), ("command", .text "/zoom-tl 50")]

theorem markedText_holds : Holds markedText markedDocument :=
  Document.read_print markedDocument_plain

theorem marked_revises : ∃ q, bare.Revises markedWorld zoomHalf onlyFile q := by
  have hsize : markedText.utf8ByteSize ≤ Document.maxFileSize := by
    rw [markedText, String.utf8ByteSize_append, Json.print, String.utf8ByteSize_ofList]
    decide +kernel
  have hoccurs : ((Document.project markedDocument).toOption.map fun project =>
      let o := bare.outcome markedWorld zoomHalf project "/zoom-tl 50"
      o.success && o.revised.isSome) = some true := by decide +kernel
  obtain ⟨project, hproject, hboth⟩ := Option.map_eq_some_iff.mp hoccurs
  obtain ⟨hsuccess, hsome⟩ := Bool.and_eq_true_iff.mp hboth
  obtain ⟨q, hq⟩ := Option.isSome_iff_exists.mp hsome
  have hload : Files.load { text := markedText } = .ok project := by
    unfold Files.load Document.load
    rw [if_neg (Nat.not_lt.mpr hsize), markedText, Document.parse_print markedDocument_plain]
    exact toOption_eq_some.mp hproject
  exact ⟨q, .intro rfl (existing_onlyFile hsize) hload rfl hsuccess hq⟩

/-- A zoom keeps the entries of the element and of the editor state. -/
theorem zoom_carries : ∃ s v',
    ((bare.call "run_command" zoomHalf).run markedWorld).2.files.node? onlyFile =
      some (.file { text := s }) ∧
    Holds s v' ∧ ∃ name id, Document.Carries name id markedDocument v' := by
  obtain ⟨q, hr⟩ := marked_revises
  obtain ⟨file, p, line, command, tokens, v, s, v', hfile, -, -, -, hnode, hv, hv', hcarries⟩ :=
    saved_carries rfl hr
  have hfind : markedWorld.files.find onlyFile = .ok (some (.file { text := markedText })) := rfl
  rw [hfind, Except.ok.injEq, Option.some.injEq, Node.file.injEq] at hfile
  rw [← hfile] at hv
  obtain rfl := Except.ok.inj (hv.symm.trans markedText_holds)
  exact ⟨s, v', hnode, hv', _, _, hcarries⟩

/-- A zoom leaves out the entries of the project, the composition, the page, the track and the
note. -/
theorem zoom_drops : ∃ q s v', bare.Revises markedWorld zoomHalf onlyFile q ∧
    ((bare.call "run_command" zoomHalf).run markedWorld).2.files.node? onlyFile =
      some (.file { text := s }) ∧
    Holds markedText markedDocument ∧ Holds s v' ∧
    Document.looseIn markedDocument = [
      ("ofProject", .int 1), ("ofComposition", .int 2), ("ofPage", .int 3), ("ofTrack", .int 5),
      ("ofNote", .int 6)] ∧
    Document.looseIn v' = [] := by
  obtain ⟨q, hr⟩ := marked_revises
  obtain ⟨s, hs, hnode⟩ := node_of_revises rfl hr
  have hwritten := Document.holds_fileText (writable_of_revises rfl hr) hs
  have hloose : Document.looseIn markedDocument = [
      ("ofProject", .int 1), ("ofComposition", .int 2), ("ofPage", .int 3), ("ofTrack", .int 5),
      ("ofNote", .int 6)] := by rfl
  exact ⟨q, s, Document.ofProject q, hr, hnode, markedText_holds, hwritten, hloose,
    Document.looseIn_ofProject q⟩

end Host

end Montage
