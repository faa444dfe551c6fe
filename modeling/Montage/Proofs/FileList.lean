/-
# The list of files

`/ls-files` shows the records of the stored files without their contents.  What contents are is
told by the entry that holds them:

    dataUrl, blob, data, arrayBuffer      contents, whatever the value
    any other key, a byte string          contents
    any other key, any other value        about the file, and shown

The last line is one too few.  A value that is no byte string may hold one at some depth
(`Buries`), and the JSON that is to be shown has no form for it, so the command is stopped by a
fault that nothing told it about.  This is the only way for it to fail: without such an entry the
records are listed, and what is listed holds no bytes at any depth (`Session.answer_listsFiles`).

That a message holds no bytes needs saying only of what it shows: it is a text, and the JSON in it
reads back as the list of the records.
-/
import Montage.Proofs.Json
import Montage.Proofs.Run

namespace Montage

/-! ## Bytes at any depth -/

/-- The first value is the second one, or stands in it at some depth. -/
inductive Value.Inside (v : Value) : Value → Prop
  | self : Inside v v
  | item {w : Value} {items : List Value} : w ∈ items → Inside v w → Inside v (.list items)
  | entry {f : String × Value} {fields : List (String × Value)} :
      f ∈ fields → Inside v f.2 → Inside v (.object fields)

/-- A byte string is the value, or stands in it at some depth. -/
def Value.HoldsBytes (v : Value) : Prop := ∃ bs, (bytes bs).Inside v

namespace Json

theorem anyHoldsBytes_iff {items : List Value} :
    anyHoldsBytes items = true ↔ ∃ v ∈ items, holdsBytes v = true := by
  rw [← Bool.not_eq_false, anyHoldsBytes_eq_false]
  simp only [not_forall, Bool.not_eq_false, exists_prop]

theorem anyFieldHoldsBytes_iff {fields : List (String × Value)} :
    anyFieldHoldsBytes fields = true ↔ ∃ f ∈ fields, holdsBytes f.2 = true := by
  rw [← Bool.not_eq_false, anyFieldHoldsBytes_eq_false]
  simp only [not_forall, Bool.not_eq_false, exists_prop]

theorem holdsBytes_of_inside {bs : List UInt8} {v : Value} (h : (Value.bytes bs).Inside v) :
    holdsBytes v = true := by
  induction h with
  | self => rfl
  | item hmem _ ih => exact anyHoldsBytes_iff.mpr ⟨_, hmem, ih⟩
  | entry hmem _ ih => exact anyFieldHoldsBytes_iff.mpr ⟨_, hmem, ih⟩

/-- The writer refuses exactly the values that hold bytes. -/
theorem holdsBytes_iff {v : Value} : holdsBytes v = true ↔ v.HoldsBytes := by
  refine ⟨fun h => ?_, fun ⟨bs, h⟩ => holdsBytes_of_inside h⟩
  induction v using Value.induction with
  | bytes bs => exact ⟨bs, .self⟩
  | list items ih =>
      obtain ⟨v, hv, hbytes⟩ := anyHoldsBytes_iff.mp h
      obtain ⟨bs, hinside⟩ := ih v hv hbytes
      exact ⟨bs, .item hv hinside⟩
  | object fields ih =>
      obtain ⟨f, hf, hbytes⟩ := anyFieldHoldsBytes_iff.mp h
      obtain ⟨bs, hinside⟩ := ih f hf hbytes
      exact ⟨bs, .entry hf hinside⟩
  | _ => cases h

end Json

instance (v : Value) : Decidable v.HoldsBytes := decidable_of_iff _ Json.holdsBytes_iff

theorem Value.Keyed.plain {v : Value} (h : v.Keyed) (hbytes : ¬ v.HoldsBytes) : v.Plain := by
  induction h with
  | null => exact .null
  | bool b => exact .bool b
  | int n => exact .int n
  | float x => exact .float x
  | text s => exact .text s
  | bytes bs => exact absurd ⟨bs, .self⟩ hbytes
  | list _ ih =>
      refine .list fun w hw => ih w hw ?_
      rintro ⟨bs, hinside⟩
      exact hbytes ⟨bs, .item hw hinside⟩
  | object hnodup _ ih =>
      refine .object hnodup fun f hf => ih f hf ?_
      rintro ⟨bs, hinside⟩
      exact hbytes ⟨bs, .entry hf hinside⟩

/-! ## Records -/

namespace Settings

open Document (Fields)

/-- The entry tells something of the file: it is under none of the keys of contents, and holds no
bytes. -/
def Describes (f : String × Value) : Prop :=
  f.1 ∉ ["dataUrl", "blob", "data", "arrayBuffer"] ∧ ¬ f.2.HoldsBytes

instance : DecidablePred Describes := fun _ => inferInstanceAs (Decidable (_ ∧ _))

/-- The entry is under none of the keys of contents, and its value, which is no byte string, holds
one. -/
def Buries (f : String × Value) : Prop :=
  f.1 ∉ ["dataUrl", "blob", "data", "arrayBuffer"] ∧ f.2.HoldsBytes ∧ ∀ bs, f.2 ≠ .bytes bs

/-- The record with the entries that tell something of the file, as they are and in their order. -/
def described (fields : Fields) : Fields := fields.filter fun f => decide (Describes f)

/-- The answer that shows these records. -/
inductive Shows : List Value → Outcome → Prop
  | empty : Shows [] (.info "📁" "Files" "No files in storage." (.list []))
  | block {listed : List Value} : listed ≠ [] → Shows listed
      (.info "📁" ("Files (" ++ toString listed.length ++ ")")
        ("```json\n" ++ Json.print (.list listed) ++ "\n```") (.list listed))

variable {f : String × Value} {fields : Fields} {records : List Fields} {listed : List Value}
  {o : Outcome} {ctx : Context}

theorem Shows.success (h : Shows listed o) : o.success = true := by
  cases h <;> rfl

theorem Shows.revised (h : Shows listed o) : o.revised = none := by
  cases h <;> rfl

theorem Shows.data (h : Shows listed o) : o.data = .list listed := by
  cases h <;> rfl

/-- What is kept of a record describes the file or buries bytes. -/
theorem isAbout_iff : isAbout f = true ↔ Describes f ∨ Buries f := by
  obtain ⟨key, v⟩ := f
  have hkeys : contentKeys.contains key = false ↔
      key ∉ ["dataUrl", "blob", "data", "arrayBuffer"] := by
    rw [← Bool.not_eq_true, List.contains_iff_mem]
    rfl
  rw [isAbout, Bool.and_eq_true, Bool.not_eq_true', hkeys]
  unfold Describes Buries
  constructor
  · rintro ⟨hkey, hv⟩
    by_cases hbytes : v.HoldsBytes
    · refine .inr ⟨hkey, hbytes, ?_⟩
      rintro bs rfl
      cases hv
    · exact .inl ⟨hkey, hbytes⟩
  · rintro (⟨hkey, hbytes⟩ | ⟨hkey, -, hne⟩)
    · refine ⟨hkey, ?_⟩
      cases v with
      | bytes bs => exact absurd ⟨bs, .self⟩ hbytes
      | _ => rfl
    · refine ⟨hkey, ?_⟩
      cases v with
      | bytes bs => exact absurd rfl (hne bs)
      | _ => rfl

theorem mapM_withoutContents (records : List Fields) :
    (records.map Value.object).mapM withoutContents =
      .ok (records.map fun fields => .object (fields.filter isAbout)) := by
  rw [mapM_eq_ok, List.forall₂_map_left_iff, List.forall₂_map_right_iff, List.forall₂_same]
  exact fun _ _ => rfl

/-- Without buried bytes a record keeps what describes the file. -/
theorem filter_isAbout (h : ∀ f ∈ fields, ¬ Buries f) :
    fields.filter isAbout = described fields := by
  refine List.filter_congr fun f hf => ?_
  rw [Bool.eq_iff_iff, isAbout_iff, decide_eq_true_iff]
  exact or_iff_left (h f hf)

theorem not_holdsBytes_described (records : List Fields) :
    ¬ (Value.list (records.map fun fields => .object (described fields))).HoldsBytes := by
  rintro ⟨bs, hinside⟩
  cases hinside with
  | item hmem hinside =>
      obtain ⟨fields, -, rfl⟩ := List.mem_map.mp hmem
      cases hinside with
      | entry hf hinside =>
          have hdescribes := of_decide_eq_true (List.mem_filter.mp hf).2
          exact hdescribes.2 ⟨bs, hinside⟩

/-- Buried bytes are among what is kept. -/
theorem holdsBytes_of_buries (hfields : fields ∈ records) (hf : f ∈ fields) (h : Buries f) :
    (Value.list (records.map fun fields => .object (fields.filter isAbout))).HoldsBytes := by
  obtain ⟨bs, hinside⟩ := h.2.1
  have hkept : f ∈ fields.filter isAbout := List.mem_filter.mpr ⟨hf, isAbout_iff.mpr (.inr h)⟩
  exact ⟨bs, .item (List.mem_map_of_mem hfields) (.entry hkept hinside)⟩

theorem listFiles_eq (hargs : ctx.args = [])
    (hfiles : ctx.collaborators.files = some (.lists (records.map .object) true)) :
    listFiles ctx =
      let kept := records.map fun fields => Value.object (fields.filter isAbout)
      if kept.isEmpty then .ok (.info "📁" "Files" "No files in storage." (.list []))
      else (Markup.jsonBlock (.list kept)).map fun block =>
        .info "📁" ("Files (" ++ toString kept.length ++ ")") block (.list kept) := by
  have hparse : ctx.parse listFilesGrammar = .ok [] := by
    unfold Context.parse
    rw [hargs]
    rfl
  unfold listFiles
  rw [hparse, ok_bind, hfiles, Settings.records, ok_bind, mapM_withoutContents, ok_bind]
  dsimp only
  split
  · rfl
  · cases Markup.jsonBlock _ <;> rfl

/-- Records without buried bytes are listed. -/
theorem exists_listFiles_eq_ok (hargs : ctx.args = [])
    (hfiles : ctx.collaborators.files = some (.lists (records.map .object) true))
    (h : ∀ fields ∈ records, ∀ f ∈ fields, ¬ Buries f) :
    ∃ o, listFiles ctx = .ok o ∧ Shows (records.map fun fields => .object (described fields)) o := by
  have hkept : (records.map fun fields => Value.object (fields.filter isAbout)) =
      records.map fun fields => .object (described fields) :=
    List.map_congr_left fun fields hfields => congrArg _ (filter_isAbout (h fields hfields))
  have hbytes := not_holdsBytes_described records
  rw [listFiles_eq hargs hfiles, hkept]
  generalize (records.map fun fields => Value.object (described fields)) = listed at hbytes
  cases listed with
  | nil => exact ⟨_, rfl, .empty⟩
  | cons first rest =>
      have hwrite : Json.write (.list (first :: rest)) = .ok (Json.print (.list (first :: rest))) :=
        if_neg fun hholds => hbytes (Json.holdsBytes_iff.mp hholds)
      have hblock : Markup.jsonBlock (.list (first :: rest)) =
          .ok ("```json\n" ++ Json.print (.list (first :: rest)) ++ "\n```") := by
        rw [Markup.jsonBlock, hwrite]
        rfl
      refine ⟨_, ?_, .block (List.cons_ne_nil first rest)⟩
      simp only [List.isEmpty_cons, Bool.false_eq_true, if_false, hblock, Except.map]

/-- Buried bytes stop the command. -/
theorem listFiles_of_buries (hargs : ctx.args = [])
    (hfiles : ctx.collaborators.files = some (.lists (records.map .object) true))
    (hfields : fields ∈ records) (hf : f ∈ fields) (h : Buries f) :
    listFiles ctx = .error (.wrongType "bytes have no JSON form") := by
  have hholds := Json.holdsBytes_iff.mpr (holdsBytes_of_buries hfields hf h)
  have hne : (records.map fun fields => Value.object (fields.filter isAbout)).isEmpty = false := by
    rw [List.isEmpty_map, List.isEmpty_eq_false_iff]
    exact List.ne_nil_of_mem hfields
  have hblock : Markup.jsonBlock
      (.list (records.map fun fields => .object (fields.filter isAbout))) =
        .error (.wrongType "bytes have no JSON form") := by
    rw [Markup.jsonBlock, Json.write, if_pos hholds]
    rfl
  rw [listFiles_eq hargs hfiles]
  simp only [hne, Bool.false_eq_true, if_false, hblock, Except.map]

end Settings

/-! ## Lines -/

namespace Session

open Settings (Buries Shows described)

/-- A line that lists the files of a storage succeeds exactly if no entry of a record buries bytes,
and is stopped by an internal fault otherwise.  It leaves the project alone, and shows and answers
the records, each with the entries that describe its file, as they are and in their order.  So
there are no bytes at any depth of what is listed, and its text reads back as it. -/
theorem answer_listsFiles {collaborators : Collaborators} {records : List Document.Fields}
    (hfiles : collaborators.files = some (.lists (records.map .object) true))
    (ids : IdSource) (project : Option Project) {line : String}
    (hcalls : Calls line Builtin.settings[2] []) (j : Journal) :
    let o := answer ids collaborators project line j
    let listed : List Value := records.map fun fields => .object (described fields)
    (o.success = true ↔ ∀ fields ∈ records, ∀ f ∈ fields, ¬ Buries f) ∧
      (o.success = true → Shows listed o ∧ o.revised = none ∧ o.data = .list listed ∧
        ¬ o.data.HoldsBytes) ∧
      (o.success = false → o = .ofProblem (.internalFor "ls-files")) ∧
      ((∀ fields ∈ records, (Value.object fields).Keyed) →
        Json.readChars ((Json.print (.list listed)).toList ++ ['\n']) = .ok (.list listed)) := by
  intro o listed
  have hallowed : Builtin.settings[2].Allowed (context ids collaborators project []) :=
    fun hreq => by cases hreq
  have hargs : (context ids collaborators project []).args = [] := rfl
  have hbytes : ¬ (Value.list listed).HoldsBytes := Settings.not_holdsBytes_described records
  have hread : (∀ fields ∈ records, (Value.object fields).Keyed) →
      Json.readChars ((Json.print (.list listed)).toList ++ ['\n']) = .ok (.list listed) := by
    intro hkeyed
    have hplain : (Value.list listed).Plain := by
      refine Value.Keyed.plain (.list fun v hv => ?_) hbytes
      obtain ⟨fields, hfields, rfl⟩ := List.mem_map.mp hv
      exact Value.Keyed.hereditary.filter _ (hkeyed fields hfields)
    rw [Json.print, String.toList_ofList]
    exact Json.readChars_valueChars hplain
  by_cases hburies : ∀ fields ∈ records, ∀ f ∈ fields, ¬ Buries f
  · obtain ⟨shown, hlist, hshows⟩ := Settings.exists_listFiles_eq_ok hargs hfiles hburies
    have hanswer : o = shown := by
      show answer ids collaborators project line j = shown
      rw [answer_of_allowed hcalls hallowed rfl, hlist]
    clear_value o
    subst hanswer
    refine ⟨iff_of_true hshows.success hburies, fun _ => ?_, fun hfails => ?_, hread⟩
    · refine ⟨hshows, hshows.revised, hshows.data, ?_⟩
      rwa [hshows.data]
    · cases hshows.success.symm.trans hfails
  · simp only [not_forall, not_not] at hburies
    obtain ⟨fields, hfields, f, hf, hburied⟩ := hburies
    have hlist := Settings.listFiles_of_buries hargs hfiles hfields hf hburied
    have hanswer : o = .ofProblem (.internalFor "ls-files") := by
      show answer ids collaborators project line j = _
      rw [answer_of_allowed hcalls hallowed rfl, hlist]
      rfl
    clear_value o
    subst hanswer
    exact ⟨iff_of_false Bool.false_ne_true fun h => h fields hfields f hf hburied, nofun,
      fun _ => rfl, hread⟩

/-- The records of an image, with a byte string under its own key and its size inside an object. -/
def imageRecords : List Document.Fields := [
  [("name", .text "a.png"), ("dataUrl", .text "data:,"), ("raw", .bytes [137]),
    ("size", .object [("width", .int 400)])]]

/-- The same storage with a byte string inside an object. -/
def thumbnailRecords : List Document.Fields := [
  [("name", .text "a.png"), ("preview", .object [("raw", .bytes [137])])]]

theorem calls_listFiles : Calls "/ls-files" Builtin.settings[2] [] :=
  ⟨"ls-files", by decide +kernel, rfl⟩

/-- Contents at the top of a record are left out, and the rest is listed. -/
theorem image_is_listed :
    let storage : Collaborators := { files := some (.lists (imageRecords.map .object) true) }
    let o := answer .counting storage none "/ls-files" {}
    storage.files = some (.lists (imageRecords.map .object) true) ∧ o.success = true ∧
      o.data = .list [.object [("name", .text "a.png"),
        ("size", .object [("width", .int 400)])]] ∧ ¬ o.data.HoldsBytes := by
  intro storage o
  have hstorage : storage.files = some (.lists (imageRecords.map .object) true) := rfl
  obtain ⟨hiff, hlisted, -, -⟩ := answer_listsFiles hstorage .counting none calls_listFiles {}
  have hsuccess : o.success = true := by decide +kernel
  obtain ⟨-, -, hdata, hbytes⟩ := hlisted hsuccess
  exact ⟨hstorage, hsuccess, hdata, hbytes⟩

/-- Bytes inside an entry of a record stop the command. -/
theorem thumbnail_stops_list :
    let storage : Collaborators := { files := some (.lists (thumbnailRecords.map .object) true) }
    let o := answer .counting storage none "/ls-files" {}
    Calls "/ls-files" Builtin.settings[2] [] ∧ o.success = false ∧
      o.message = "❌ **Command Failed**\n\nFailed to run `/ls-files`. Please try again." := by
  refine ⟨calls_listFiles, ?_, ?_⟩
  all_goals decide +kernel

end Session

end Montage
