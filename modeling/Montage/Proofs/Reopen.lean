/-
# What was saved can be opened again

After a command that changed the project of a file, the file holds the text of the
changed project.  Opening it again can fail in two ways only (`saved_loads_iff`), and
does in both (`note_file_closes`):

    size     a file above the ceiling is not read, and writing knows no ceiling
    times    a note at minus infinity is read as no whole number of frames

Everything else in the project is read back as it is.  A note comes to stand at minus
infinity by one way: at a playhead that is there, in the file that was opened, and that
was taken as it is.  A playhead at infinity, or at what is not a number, does not get
into a note, as there is no text for such a time in the answer (`Notes.create_shown`);
one between two frames does, and is cut to whole frames when it is read.
-/
import Mathlib.Data.String.Basic
import Montage.Proofs.Host
import Montage.Proofs.Playhead
import Montage.Proofs.Unbounded

namespace Montage

variable {p q : Project}

/-! ## New notes -/

/-- What an answer about a new note needs: a text for its time. -/
theorem Notes.create_shown {ctx : Context} {o : Outcome} {j j' : Journal}
    (h : Yields (Notes.create ctx) j o j') :
    ∃ p note q s, ctx.project = some p ∧ note.id.IsText ∧
      Duration.textAt p.fps note.time = .ok s ∧ o.revised = some q ∧
        q = { p with notes := p.notes ++ [note] } := by
  unfold create added at h
  simp only [yields_bind, yields_lift, yields_draw, Prod.exists, Context.require_eq_ok,
    requireText_eq_ok, bind_eq_ok, pure_eq_ok] at h
  obtain ⟨p, _, _, ⟨⟨hp, -⟩, rfl⟩, args, _, ⟨-, rfl⟩, text, _, ⟨-, rfl⟩, id, _, ⟨_, -, rfl⟩,
    ⟨q, hq, s, hs, rfl⟩, rfl⟩ := h
  obtain ⟨xs, hxs, -, rfl⟩ := Collection.append_eq_ok.mp hq
  obtain rfl := Collection.items_notes.mp hxs
  exact ⟨p, _, _, s, hp, Value.isText_text id, hs, rfl, rfl⟩

/-- The command that adds notes. -/
theorem Builtin.handler_new_note {command : Command} (hmem : command ∈ Builtin.commands)
    (hname : command.name = "new-note") : command.handler = Notes.create := by
  have hnote : Builtin.notes[0] ∈ Builtin.commands := by simp [Builtin.commands]
  obtain rfl := eq_of_name hmem hnote hname
  rfl

namespace Session

variable {ids : IdSource} {collaborators : Collaborators} {line : String} {args : List String}
  {j : Journal}

/-- A new note leaves the name of the project. -/
theorem name_of_newNote {command : Command} (hcalls : Calls line command args)
    (hname : command.name = "new-note")
    (hq : (answer ids collaborators (some p) line j).revised = some q) : q.name = p.name := by
  rcases answer_ran ids collaborators (some p) line j with
    hrefuses | ⟨_, _, hcalls', -, t, j', hyields⟩
  · rw [hrefuses.revised] at hq
    cases hq
  · obtain ⟨rfl, rfl⟩ := hcalls.unique hcalls'
    rw [Builtin.handler_new_note hcalls.mem hname] at hyields
    obtain ⟨_, _, _, _, hp, -, -, hrevised, rfl⟩ := Notes.create_shown hyields
    cases hp
    cases hq.symm.trans hrevised
    rfl

end Session

theorem Project.Storable.fps_pos (hp : p.Storable) : 0 < p.fps := by
  unfold fps
  split
  · decide
  · rename_i c hc
    have hfps := hp.composition c hc
    split
    · decide
    · exact hfps

/-- The time of a note can be read as whole frames, or is minus infinity. -/
def Note.Shown (note : Note) : Prop :=
  (∃ n, Document.wholeNumber note.time = .ok n) ∨ note.time = .float (.infinite true)

theorem Note.shown_of_stores {note : Note} (h : Keeps Note.Storage note) : note.Shown := by
  obtain ⟨n, hn⟩ : ∃ n, note.time = .int n := h .time
  exact .inl ⟨n, hn ▸ rfl⟩

/-- What a line makes of a project that can be stored can be stored, but for the times of notes. -/
theorem Leads.shown (h : Leads p q) (hp : p.Storable) :
    Project.Storable { q with notes := [] } ∧ ∀ note ∈ q.notes, note.id.IsText ∧ note.Shown := by
  have hkept : ∀ note ∈ p.notes, note.id.IsText ∧ note.Shown :=
    fun note hnote => ⟨hp.notes note hnote .id, note.shown_of_stores (hp.notes note hnote)⟩
  obtain ⟨ids, collaborators, line, j, h⟩ := h
  rw [Outcome.projectAfter_some, Option.some.injEq] at h
  subst h
  rcases Session.answer_ran ids collaborators (some p) line j with
    hrefuses | ⟨command, args, hcalls, -, t, j', hyields⟩
  · rw [hrefuses.revised, Option.getD_none]
    exact ⟨{ hp with notes := nofun }, hkept⟩
  have horigin := (effect_of_yields hcalls.mem hyields).origin (p := p) rfl
  refine ⟨horigin.storable_withNotes hp nofun, ?_⟩
  by_cases hname : command.name = "new-note"
  · rw [Builtin.handler_new_note hcalls.mem hname] at hyields
    obtain ⟨p', note, _, s, hp', hid, hs, hrevised, rfl⟩ := Notes.create_shown hyields
    cases hp'
    rw [hrevised, Option.getD_some]
    intro d hd
    rcases List.mem_append.mp hd with hd | hd
    · exact hkept d hd
    · obtain rfl := List.mem_singleton.mp hd
      exact ⟨hid, Duration.wholeNumber_of_textAt hp.fps_pos hs⟩
  · intro note hnote
    have hnotes : ∀ d ∈ p.notes, Keeps (Note.Timed (.int 0)) d :=
      fun d hd => Note.timed_int.mpr (hp.notes d hd)
    rcases (horigin.notes note hnote).timed_or_new hnotes with hkeeps | ⟨hnew, -⟩
    · have hstores := Note.timed_int.mp hkeeps
      exact ⟨hstores .id, note.shown_of_stores hstores⟩
    · exact absurd hnew hname

/-! ## Reading what was written -/

namespace Document

/-- A note is read back with its time in whole frames. -/
theorem note_ofNote_eq {note : Note} (hid : note.id.IsText) :
    Document.note (ofNote note) = (do
      let n ← wholeNumber note.time
      return { note with time := .int n }) := by
  obtain ⟨id, hid⟩ := hid
  obtain ⟨_, _, _, _, updatedAt⟩ := note
  dsimp only at hid
  subst hid
  cases updatedAt <;> rfl

/-- A document is read back exactly if no note stands at minus infinity. -/
theorem project_ofProject_iff (h : Project.Storable { q with notes := [] })
    (hnotes : ∀ note ∈ q.notes, note.id.IsText ∧ note.Shown) :
    (∃ q', project (ofProject q) = .ok q') ↔
      ∀ note ∈ q.notes, note.time ≠ .float (.infinite true) := by
  rw [project_ofProject_eq h]
  constructor
  · rintro ⟨q', hq⟩ note hnote hinfinite
    obtain ⟨notes, hread, -⟩ := bind_eq_ok.mp (invalidIfBad_eq_ok hq)
    obtain ⟨d, -, hd⟩ := exists_mem_of_mapM hread (List.mem_map_of_mem hnote)
    rw [note_ofNote_eq (hnotes note hnote).1, hinfinite] at hd
    cases hd
  · intro hfinite
    have hread : ∀ v ∈ q.notes.map ofNote, ∃ d, Document.note v = .ok d := by
      intro v hv
      obtain ⟨note, hnote, rfl⟩ := List.mem_map.mp hv
      obtain ⟨hid, ⟨n, hn⟩ | hinfinite⟩ := hnotes note hnote
      · rw [note_ofNote_eq hid, hn]
        exact ⟨_, rfl⟩
      · exact absurd hinfinite (hfinite note hnote)
    obtain ⟨notes, hread⟩ := exists_mapM hread
    rw [hread]
    exact ⟨_, rfl⟩

end Document

/-! ## Opening a file again -/

namespace Document

theorem storable_of_load {size : Nat} {text : String} (h : load size text = .ok p) :
    p.Storable := by
  unfold load parse at h
  obtain ⟨-, h⟩ := guard_eq_ok.mp h
  split at h
  · rename_i v hread
    exact project_storable h (Json.plain_of_read hread).keyed
  · cases h

/-- The bytes of a file are those of the characters of the document, and one more. -/
theorem size_fileText {s : String} (hq : q.Writable) (hs : fileText q = .ok s) :
    s.utf8ByteSize = String.utf8Len (Json.valueChars 0 (ofProject q)) + 1 := by
  rw [fileText_eq hq, Except.ok.injEq] at hs
  rw [← hs, String.utf8ByteSize_append, Json.print, String.utf8ByteSize_ofList]
  rfl

theorem load_fileText_iff {s : String} {r : Project} (hq : q.Writable) (hs : fileText q = .ok s) :
    load s.utf8ByteSize s = .ok r ↔
      s.utf8ByteSize ≤ maxFileSize ∧ project (ofProject q) = .ok r := by
  rw [fileText_eq hq, Except.ok.injEq] at hs
  unfold load
  rw [guard_eq_ok, Nat.not_lt, ← hs, parse_print (hq.plain.document hq.extra)]

end Document

namespace Host

variable {h : Host} {w : World} {args : List (String × Value)} {path : Path}

/-- The changed project is what a line makes of the one that was read. -/
theorem leads_of_revises (hcatalog : h.session.catalog = Builtin.catalog)
    (hr : h.Revises w args path q) :
    ∃ file p, Files.load file = .ok p ∧ Leads p q := by
  obtain @⟨_, file, p, line, -, -, hload, -, -, hrevised⟩ := hr
  have hafter := Outcome.projectAfter_some (h.outcome w args p line) p
  rw [hrevised, Option.getD_some, outcome_eq hcatalog] at hafter
  exact ⟨file, p, hload, _, _, _, _, hafter⟩

theorem writable_of_revises (hcatalog : h.session.catalog = Builtin.catalog)
    (hr : h.Revises w args path q) : q.Writable := by
  obtain ⟨_, p, hload, hleads⟩ := leads_of_revises hcatalog hr
  exact Reaches.writable (.single hleads) (Document.writable_of_load hload)

/-- The file holds the text of the changed project. -/
theorem node_of_revises (hcatalog : h.session.catalog = Builtin.catalog)
    (hr : h.Revises w args path q) :
    ∃ s, Document.fileText q = .ok s ∧
      ((h.call "run_command" args).run w).2.files.node? path = some (.file { text := s }) := by
  obtain ⟨s, hs, hrewrites⟩ := rewrites_of_revises hcatalog hr
  refine ⟨s, hs, ?_⟩
  rw [filesAfter_call, filesAfter_perform, if_pos rfl,
    filesAfter_of_revises hr (handled_of_success hcatalog)]
  exact hrewrites.file

/-- After a command that changed the project of a file, the file is read again exactly if it is
not above the ceiling and no note in it stands at minus infinity; with the playhead on a whole
frame there is no such note, and what is read is the project that was saved. -/
theorem saved_loads_iff (hcatalog : h.session.catalog = Builtin.catalog)
    (hr : h.Revises w args path q) :
    ∃ s, Document.fileText q = .ok s ∧
      ((h.call "run_command" args).run w).2.files.node? path = some (.file { text := s }) ∧
      ((∃ r, Files.load { text := s } = .ok r) ↔ s.utf8ByteSize ≤ Document.maxFileSize ∧
        ∀ note ∈ q.notes, note.time ≠ .float (.infinite true)) ∧
      ((∃ n, q.appState.currentTime = .int n) → s.utf8ByteSize ≤ Document.maxFileSize →
        Files.load { text := s } = .ok q) := by
  obtain ⟨s, hs, hnode⟩ := node_of_revises hcatalog hr
  obtain ⟨_, p, hload, hleads⟩ := leads_of_revises hcatalog hr
  have hp := Document.storable_of_load hload
  obtain ⟨hparts, hshown⟩ := hleads.shown hp
  have hiff (r : Project) : Files.load { text := s } = .ok r ↔ _ :=
    Document.load_fileText_iff (writable_of_revises hcatalog hr) hs
  refine ⟨s, hs, hnode, ?_, fun htime hsize => ?_⟩
  · rw [← Document.project_ofProject_iff hparts hshown, ← exists_and_left]
    exact exists_congr hiff
  · obtain ⟨_, _, horigin⟩ := hleads.origin
    rw [horigin.currentTime] at htime
    exact (hiff q).mpr ⟨hsize, Document.project_ofProject (hleads.storable hp htime).1⟩

end Host

/-! ## A document with a long name -/

/-- So many letters. -/
def letters (k : Nat) : String := String.ofList (List.replicate k 'a')

namespace Document

theorem utf8Len_letters (k : Nat) : String.utf8Len (Json.stringChars (letters k)) = k + 2 := by
  have hchars : ∀ n, (List.replicate n 'a').flatMap Json.escapeChar = List.replicate n 'a' := by
    intro n
    induction n with
    | zero => rfl
    | succ n ih =>
        rw [List.replicate_succ, List.flatMap_cons, ih]
        rfl
  have hlength : ∀ n, String.utf8Len (List.replicate n 'a') = n := by
    intro n
    induction n with
    | zero => rfl
    | succ n ih =>
        rw [List.replicate_succ, String.utf8Len_cons, ih]
        rfl
  rw [Json.stringChars, letters, String.toList_ofList, hchars, List.cons_append,
    String.utf8Len_cons, String.utf8Len_append, hlength]
  rfl

/-- The size of a document without its name, and that of the name. -/
theorem utf8Len_name {k : Nat} (hname : q.name = .text (letters k)) :
    String.utf8Len (Json.valueChars 0 (ofProject q)) =
      k + String.utf8Len (Json.valueChars 0 (ofProject { q with name := .text "" })) := by
  have hempty : String.utf8Len (Json.stringChars "") = 2 := by decide
  simp only [ofProject, projectWith, Json.valueChars, Json.fieldChars, List.isEmpty_cons,
    Bool.false_eq_true, if_false, hname, List.cons_append, String.utf8Len_cons,
    String.utf8Len_append, utf8Len_letters, hempty]
  omega

end Document

namespace Host

/-! ## A host with one file -/

/-- A host in the root directory. -/
def bare : Host where
  session := { ids := .counting }
  home := ⟨[]⟩
  projects := "/"
  files := "/"
  modified := 0

/-- The path of the only file. -/
def onlyFile : Path := ⟨["a.json"]⟩

/-- A world whose only file holds a project. -/
def worldWith (p : Project) : World :=
  { files := ⟨[(onlyFile, .file { text := Json.print (Document.ofProject p) ++ "\n" })]⟩ }

/-- A new note for the project in the only file. -/
def newNote : List (String × Value) :=
  [("project_path", .text "a.json"), ("command", .text "/new-note --text Hello")]

theorem existing_onlyFile {text : String} (hsize : text.utf8ByteSize ≤ Document.maxFileSize) :
    Files.existing ⟨[(onlyFile, .file { text })]⟩ bare.home Files.projectSuffixes
      (.text "a.json") = .ok (onlyFile, { text }) := by
  have hsuffix : Text.lower onlyFile.suffix ∈ Files.projectSuffixes := by decide +kernel
  exact Files.existing_eq_ok.mpr
    ⟨"a.json", by decide +kernel, by decide +kernel, rfl, .inr hsuffix, hsize⟩

/-- The project with an empty composition, a name and a playhead. -/
def named (n t : Value) : Project := { Document.playing t with name := n }

theorem named_storable {n t : Value} (ht : t ≠ .null) : (named n t).Storable where
  composition := by
    rintro c ⟨⟩
    decide
  pages := nofun
  elements := nofun
  audios := by
    rintro c ⟨⟩
    exact nofun
  notes := nofun
  currentTime := ht
  zoomLevel := nofun
  extra := ⟨List.nodup_nil, nofun⟩

theorem named_writable {n t : Value} (hn : n.Plain) (ht : t.Plain) : (named n t).Writable where
  plain := {
    name := hn
    pages := nofun
    elements := nofun
    audios := by
      rintro c ⟨⟩
      exact nofun
    notes := nofun
    selectedPage := .null
    selectedElement := .null
    currentTime := ht
    zoomLevel := .float _
    extra := nofun }
  extra := ⟨nofun, ⟨List.nodup_nil, nofun⟩⟩

/-- What the line is seen to make of the project in the only file. -/
theorem revises_onlyFile {n t : Value} (hn : n.Plain) (ht : t.Plain) (hnull : t ≠ .null)
    (test : Project → Bool)
    (hsize : String.utf8Len (Json.valueChars 0 (Document.ofProject (named n t))) <
      Document.maxFileSize)
    (hoccurs :
      let o := bare.outcome (worldWith (named n t)) newNote (named n t) "/new-note --text Hello"
      (o.success && o.revised.any test) = true) :
    ∃ q, bare.Revises (worldWith (named n t)) newNote onlyFile q ∧ test q = true ∧ q.name = n := by
  have hwritable := named_writable hn ht
  have htext := Document.fileText_eq hwritable
  have hsmall : (Json.print (Document.ofProject (named n t)) ++ "\n").utf8ByteSize ≤
      Document.maxFileSize := by
    rw [Document.size_fileText hwritable htext]
    exact hsize
  have hload := (Document.load_fileText_iff hwritable htext).mpr
    ⟨hsmall, Document.project_ofProject (named_storable hnull)⟩
  obtain ⟨hsuccess, hany⟩ := Bool.and_eq_true_iff.mp hoccurs
  cases hq : (bare.outcome (worldWith (named n t)) newNote (named n t)
      "/new-note --text Hello").revised with
  | none =>
      rw [hq] at hany
      cases hany
  | some q =>
      rw [hq] at hany
      have hproject : newNote.lookup "project_path" = some (.text "a.json") := rfl
      have hline : newNote.lookup "command" = some (.text "/new-note --text Hello") := rfl
      have hfile := existing_onlyFile hsmall
      have hr : bare.Revises (worldWith (named n t)) newNote onlyFile q :=
        .intro hproject hfile hload hline hsuccess hq
      have hcall : Line.call? "/new-note --text Hello" =
          some ⟨"new-note", ["--text", "Hello"]⟩ := by decide +kernel
      obtain ⟨_, hcalls, hname⟩ := exists_calls hcall (by decide +kernel)
      rw [outcome_eq rfl] at hq
      exact ⟨q, hr, hany, Session.name_of_newNote hcalls hname hq⟩

theorem ne_infinite_of_isWhole {notes : List Note}
    (h : notes.all (fun note => note.time.isWhole) = true) :
    ∀ note ∈ notes, note.time ≠ .float (.infinite true) := by
  intro note hnote htime
  have hwhole := List.all_eq_true.mp h note hnote
  rw [htime] at hwhole
  cases hwhole

/-- A note at a whole frame, in a file that is read again. -/
theorem note_file_opens :
    let p := named (.text "Whole") (.int 40)
    ∃ q s, bare.Revises (worldWith p) newNote onlyFile q ∧
      Document.fileText q = .ok s ∧ ∃ r, Files.load { text := s } = .ok r := by
  intro p
  obtain ⟨q, hr, htest, -⟩ := revises_onlyFile (.text "Whole") (.int 40) nofun
    (fun q => q.notes.all (·.time.isWhole) &&
      decide (String.utf8Len (Json.valueChars 0 (Document.ofProject q)) < Document.maxFileSize))
    (by decide +kernel) (by decide +kernel)
  obtain ⟨hwhole, hsmall⟩ := Bool.and_eq_true_iff.mp htest
  obtain ⟨s, hs, -, hiff, -⟩ := saved_loads_iff rfl hr
  have hsize : s.utf8ByteSize ≤ Document.maxFileSize := by
    rw [Document.size_fileText (writable_of_revises rfl hr) hs]
    exact of_decide_eq_true hsmall
  exact ⟨q, s, hr, hs, hiff.mpr ⟨hsize, ne_infinite_of_isWhole hwhole⟩⟩

/-- A new note is saved in the only file, and the file is not read again. -/
def Closes (p q : Project) : Prop :=
  bare.Revises (worldWith p) newNote onlyFile q ∧
    ∃ s, ((bare.call "run_command" newNote).run (worldWith p)).2.files.node? onlyFile =
      some (.file { text := s }) ∧ ¬ ∃ r, Files.load { text := s } = .ok r

theorem closes (hr : bare.Revises (worldWith p) newNote onlyFile q)
    (h : String.utf8Len (Json.valueChars 0 (Document.ofProject q)) < Document.maxFileSize →
      ∀ r, Document.project (Document.ofProject q) ≠ .ok r) : Closes p q := by
  obtain ⟨s, hs, hnode⟩ := node_of_revises rfl hr
  have hwritable := writable_of_revises rfl hr
  refine ⟨hr, s, hnode, ?_⟩
  rintro ⟨r, hload⟩
  obtain ⟨hsize, hread⟩ := (Document.load_fileText_iff hwritable hs).mp hload
  rw [Document.size_fileText hwritable hs] at hsize
  exact h hsize r hread

/-- A note at minus infinity closes a file, and any note closes a file in which the name leaves no
room for it. -/
theorem note_file_closes :
    (∃ q, Closes (named (.text "Never") (.float (.infinite true))) q) ∧
      ∃ q, Closes (named (.text (letters (Document.maxFileSize - 280))) (.int 40)) q ∧
        ∀ note ∈ q.notes, note.time ≠ .float (.infinite true) := by
  constructor
  · obtain ⟨q, hr, hunread, -⟩ := revises_onlyFile (.text "Never") (.float (.infinite true)) nofun
      (fun q => (Document.project (Document.ofProject q)).toOption.isNone)
      (by decide +kernel) (by decide +kernel)
    refine ⟨q, closes hr fun _ r hread => ?_⟩
    rw [hread] at hunread
    cases hunread
  · obtain ⟨q, hr, htest, hname⟩ := revises_onlyFile
      (.text (letters (Document.maxFileSize - 280))) (.int 40) nofun
      (fun q => q.notes.all (·.time.isWhole) && decide (280 ≤
        String.utf8Len (Json.valueChars 0 (Document.ofProject { q with name := .text "" }))))
      (by rw [Document.utf8Len_name rfl]; decide +kernel) (by decide +kernel)
    obtain ⟨hwhole, hrest⟩ := Bool.and_eq_true_iff.mp htest
    refine ⟨q, closes hr fun hsize => ?_, ne_infinite_of_isWhole hwhole⟩
    have hmax : Document.maxFileSize = 52428800 := rfl
    have hrest := of_decide_eq_true hrest
    rw [Document.utf8Len_name hname] at hsize
    omega

end Host

end Montage
