/-
# Elements and editor states that are written back

Reading and writing an element changes nothing but this (`KeptElement`):

    id                          is a text from then on
    type, textAlign             become keywords, in lower case and without white space around them
    left, top, width, height    are zero if they were absent or `null`
    the other known entries     are left out if they were `null`

An editor state gets its four known entries, whether it had them or not (`KeptState`).  What is
written has nothing left to change: reading and writing it again gives the same entries, in the same
order (`comes_back_kept`).
-/
import Montage.Proofs.Each

namespace Montage

/-! ## Keywords -/

section Keyword
variable {v : Value} {label word : String}

/-- Only a text holds a keyword. -/
theorem Keyword.normalize_eq_ok (h : Keyword.normalize label v = .ok word) :
    ∃ s, v = .text s ∧ Text.lower (Text.strip s) = word := by
  unfold Keyword.normalize at h
  split at h
  · rename_i s
    split at h
    · cases h
    · split at h
      · cases h
      · dsimp only at h
        split at h
        · cases h
        · exact ⟨s, rfl, Except.ok.inj h⟩
  · cases h

theorem ElementKind.read_eq_ok {k : ElementKind} (h : ElementKind.read v = .ok k) :
    ∃ s, v = .text s ∧ Text.lower (Text.strip s) = k.name := by
  obtain ⟨word, hword, h⟩ := bind_eq_ok.mp h
  obtain ⟨s, rfl, hs⟩ := Keyword.normalize_eq_ok hword
  split at h
  · rename_i hfind
    cases h
    have hname := List.find?_some hfind
    exact ⟨s, rfl, hs.trans (beq_iff_eq.mp hname).symm⟩
  · cases h

theorem TextAlign.read_eq_ok {a : TextAlign} (h : TextAlign.read v = .ok a) :
    ∃ s, v = .text s ∧ Text.lower (Text.strip s) = a.name := by
  obtain ⟨word, hword, h⟩ := bind_eq_ok.mp h
  obtain ⟨s, rfl, hs⟩ := Keyword.normalize_eq_ok hword
  split at h
  · rename_i hfind
    cases h
    have hname := List.find?_some hfind
    exact ⟨s, rfl, hs.trans (beq_iff_eq.mp hname).symm⟩
  · cases h

end Keyword

namespace Document

variable {v : Value} {fields o : Fields} {e : Element} {key : String}

/-! ## Entries -/

theorem lookup_of_entry (h : Value.entry fields key = v) (hv : v ≠ .null) :
    fields.lookup key = some v := by
  unfold Value.entry at h
  cases hlookup : fields.lookup key with
  | none =>
      rw [hlookup] at h
      exact absurd h.symm hv
  | some w =>
      rw [hlookup] at h
      exact congrArg some h

theorem entry_of_lookup (h : fields.lookup key = some v) : Value.entry fields key = v := by
  rw [Value.entry, h, Option.getD_some]

theorem entryOr_of_lookup (h : fields.lookup key = some v) (hv : v ≠ .null) (absent : Value) :
    entryOr fields key absent = v := entryOr_eq (entry_of_lookup h) hv

theorem entryOr_of_null (h : Value.entry fields key = .null) (absent : Value) :
    entryOr fields key absent = absent := by
  rw [entryOr, h]
  rfl

theorem exists_of_alignment {align : Option TextAlign} (h : alignment v = .ok align)
    (hv : v ≠ .null) : ∃ a, align = some a ∧ TextAlign.read v = .ok a := by
  unfold alignment at h
  split at h
  · rename_i hnull
    cases v with
    | null => exact absurd rfl hv
    | _ => cases hnull
  · obtain ⟨a, ha, rfl⟩ := map_eq_ok.mp h
    exact ⟨a, rfl, ha⟩

/-- Behind entries that are known, the others of an object are found. -/
theorem lookup_known_others {known : Fields} {keys : List String}
    (hknown : ∀ f ∈ known, f.1 ∈ keys) (hkey : key ∉ keys) :
    (known ++ others keys fields).lookup key = fields.lookup key := by
  have hnone : known.lookup key = none := by
    refine Value.lookup_of_not_mem fun hmem => ?_
    obtain ⟨f, hf, rfl⟩ := List.mem_map.mp hmem
    exact hkey (hknown f hf)
  rw [List.lookup_append, hnone, Option.none_or]
  exact Arguments.lookup_except hkey

/-! ## Elements -/

/-- What becomes of the entries of an element that is read and written. -/
structure KeptElement (fields o : Fields) : Prop where
  nodup : (o.map Prod.fst).Nodup
  unknown : ∀ key ∉ elementKeys, o.lookup key = fields.lookup key
  id : ∃ v, fields.lookup "id" = some v ∧ o.lookup "id" = some (.text v.display)
  type : ∃ s, ∃ k : ElementKind, fields.lookup "type" = some (.text s) ∧
    Text.lower (Text.strip s) = k.name ∧ o.lookup "type" = some (.text k.name)
  textAlign : ∀ v, fields.lookup "textAlign" = some v → v ≠ .null →
    ∃ s, ∃ a : TextAlign, v = .text s ∧
      Text.lower (Text.strip s) = a.name ∧ o.lookup "textAlign" = some (.text a.name)
  present : ∀ f ∈ Element.Field.keyed, f ≠ .textAlign → ∀ v, fields.lookup f.key = some v →
    v ≠ .null → o.lookup f.key = some v
  absent : ∀ f ∈ Element.Field.keyed, Value.entry fields f.key = .null →
    o.lookup f.key = if f ∈ places then some (.int 0) else none

/-- A field with a value stands under its key. -/
theorem lookup_field {entries : Fields} (h : Beside elementKeys entries) {f : Element.Field}
    (hf : f ∈ Element.Field.keyed) (hget : e.get f = v) (hv : v ≠ .null) :
    (elementEntries e ++ entries).lookup f.key = some v :=
  lookup_of_entry ((entry_beside h hf).trans hget) hv

/-- A field without a value is left out. -/
theorem lookup_field_of_null {entries : Fields} (h : Beside elementKeys entries)
    {f : Element.Field} (hf : f ∈ Element.Field.keyed) (hget : e.get f = .null) :
    (elementEntries e ++ entries).lookup f.key = none := by
  rw [lookup_beside h (key_mem_elementKeys hf), lookup_elementEntries e hf, hget]
  rfl

/-- What is written for an element that entries give keeps these entries. -/
theorem Gives.kept (h : Gives fields e) (hnodup : (fields.map Prod.fst).Nodup) :
    KeptElement fields (elementEntries e ++ others elementKeys fields) := by
  have hbeside : Beside elementKeys (others elementKeys fields) := others_beside hnodup
  constructor
  case nodup => exact nodup_beside (by decide) (keys_elementEntries e) hbeside
  case unknown =>
    intro key hkey
    exact lookup_known_others (fun _ => mem_elementKeys) hkey
  case id =>
    obtain ⟨w, hw, hid⟩ := h.id
    refine ⟨w, hw, ?_⟩
    rw [lookup_beside hbeside (by decide), ← hid]
    rfl
  case type =>
    obtain ⟨w, hw, hkind⟩ := h.kind
    obtain ⟨s, rfl, hs⟩ := ElementKind.read_eq_ok hkind
    refine ⟨s, e.kind, hw, hs, ?_⟩
    rw [lookup_beside hbeside (by decide)]
    rfl
  case textAlign =>
    intro v hv hne
    obtain ⟨a, ha, hread⟩ := exists_of_alignment (entry_of_lookup hv ▸ h.textAlign) hne
    obtain ⟨s, rfl, hs⟩ := TextAlign.read_eq_ok hread
    have hget : e.get .textAlign = .text a.name := congrArg Element.alignValue ha
    exact ⟨s, a, rfl, hs, lookup_field (f := .textAlign) hbeside (by decide) hget nofun⟩
  case present =>
    intro f hf hne v hv hnull
    have hget : e.get f = v := (h.get f hf hne).trans (entryOr_of_lookup hv hnull _)
    exact lookup_field hbeside hf hget hnull
  case absent =>
    intro f hf hnull
    have hget : e.get f = if f ∈ places then .int 0 else .null := by
      by_cases halign : f = .textAlign
      · subst halign
        have hnone := h.textAlign
        rw [show Value.entry fields "textAlign" = .null from hnull] at hnone
        exact congrArg Element.alignValue (Except.ok.inj hnone).symm
      · exact (h.get f hf halign).trans (entryOr_of_null hnull _)
    split
    · rename_i hplace
      rw [if_pos hplace] at hget
      exact lookup_field hbeside hf hget nofun
    · rename_i hplace
      rw [if_neg hplace] at hget
      exact lookup_field_of_null hbeside hf hget

/-! ## Editor states -/

/-- What stands for the entries that an editor state does not give. -/
def blankState : Fields :=
  [("selectedPageId", .null), ("selectedElementId", .null), ("currentTime", .int 0),
   ("zoomLevel", .float (.ofInt 1))]

/-- What becomes of the entries of an editor state that is read and written. -/
structure KeptState (fields o : Fields) : Prop where
  nodup : (o.map Prod.fst).Nodup
  unknown : ∀ key ∉ appStateKeys, o.lookup key = fields.lookup key
  present : ∀ key ∈ appStateKeys, ∀ v, fields.lookup key = some v → v ≠ .null →
    o.lookup key = some v
  absent : ∀ key absent, (key, absent) ∈ blankState → Value.entry fields key = .null →
    o.lookup key = some absent

/-- Every object is read as an editor state. -/
theorem exists_appState (fields : Fields) : ∃ s, appState (.object fields) = .ok s := by
  unfold appState
  split <;> exact ⟨_, rfl⟩

/-- A known entry is written with the value that it was read with. -/
theorem lookup_state {s : AppState} {absent : Value} (h : appState (.object fields) = .ok s)
    (hmem : (key, absent) ∈ blankState) :
    (appStateEntries s ++ s.extra).lookup key = some (entryOr fields key absent) := by
  obtain rfl := appState_eq_ok h
  simp only [blankState, List.mem_cons, Prod.mk.injEq, List.not_mem_nil, or_false] at hmem
  rcases hmem with ⟨rfl, rfl⟩ | ⟨rfl, rfl⟩ | ⟨rfl, rfl⟩ | ⟨rfl, rfl⟩ <;> rfl

/-- What is written for an editor state keeps the entries that it was read from. -/
theorem kept_of_appState {s : AppState} (h : appState (.object fields) = .ok s)
    (hnodup : (fields.map Prod.fst).Nodup) : KeptState fields (appStateEntries s ++ s.extra) := by
  have hextra : s.extra = others appStateKeys fields := congrArg AppState.extra (appState_eq_ok h)
  have hbeside : Beside appStateKeys s.extra := hextra ▸ others_beside hnodup
  have hknown : ∀ f ∈ appStateEntries s, f.1 ∈ appStateKeys :=
    fun f hf => List.mem_map_of_mem (f := Prod.fst) hf
  constructor
  case nodup => exact nodup_beside (by decide) (List.Sublist.refl appStateKeys) hbeside
  case unknown =>
    intro key hkey
    rw [hextra]
    exact lookup_known_others hknown hkey
  case present =>
    intro key hkey v hv hnull
    obtain ⟨f, hf, rfl⟩ : ∃ f ∈ blankState, f.1 = key := List.mem_map.mp hkey
    rw [lookup_state h hf, entryOr_of_lookup hv hnull]
  case absent =>
    intro key absent hmem hnull
    rw [lookup_state h hmem, entryOr_of_null hnull]

/-! ## Back and forth -/

/-- What an object is read as, an element or an editor state, is written with the entries of this
object, but for those that are put into their usual form.  When what is written is read and written
again, nothing changes any more. -/
theorem comes_back_kept {v : Value} (hv : v.Keyed) :
    (∀ e, element v = .ok e → ∃ fields o, v = .object fields ∧ ofElement e = .object o ∧
      KeptElement fields o ∧ (element (.object o)).map ofElement = .ok (.object o)) ∧
    (∀ fields, v = .object fields → ∃ s o, appState v = .ok s ∧ ofAppState s = .object o ∧
      KeptState fields o ∧ (appState (.object o)).map ofAppState = .ok (.object o)) := by
  constructor
  · intro e h
    obtain ⟨fields, rfl, hgives⟩ := element_eq_ok h
    have hnodup : (fields.map Prod.fst).Nodup := by
      cases hv with
      | object hnodup _ => exact hnodup
    have hwritten := ofElement_eq (others_beside hnodup) hgives.extra
    obtain ⟨hkeeps, hextra⟩ := element_storable h hv
    refine ⟨fields, _, rfl, hwritten, hgives.kept hnodup, ?_⟩
    rw [← hwritten, element_ofElement hkeeps hextra]
    rfl
  · rintro fields rfl
    have hnodup : (fields.map Prod.fst).Nodup := by
      cases hv with
      | object hnodup _ => exact hnodup
    obtain ⟨s, h⟩ := exists_appState fields
    obtain ⟨htime, hzoom, hextra⟩ := appState_storable h hv
    have hwritten := ofAppState_eq hextra
    refine ⟨s, _, h, hwritten, kept_of_appState h hnodup, ?_⟩
    rw [← hwritten, appState_ofAppState htime hzoom hextra]
    rfl

/-- The entries of an element with an integer as its id, keywords in capitals, nulls and a foreign
entry. -/
def untidyEntries : Fields := [
  ("id", .int 7), ("mark", .null), ("type", .text " TEXT"), ("left", .int 3), ("top", .null),
  ("text", .null), ("textAlign", .text "Center")]

theorem untidyEntries_keyed : (Value.object untidyEntries).Keyed := by
  refine .object (by decide) ?_
  simp only [untidyEntries, List.forall_mem_cons]
  exact ⟨.int 7, .null, .text _, .int 3, .null, .null, .text _, List.forall_mem_nil _⟩

/-- Once in order, they stay as they are. -/
theorem untidy_comes_back :
    (Value.object untidyEntries).Keyed ∧
      ∃ e o, element (.object untidyEntries) = .ok e ∧ ofElement e = .object o ∧
        o = [
          ("id", .text "7"), ("type", .text "text"), ("left", .int 3), ("top", .int 0),
          ("width", .int 0), ("height", .int 0), ("textAlign", .text "center"),
          ("mark", .null)] ∧
        KeptElement untidyEntries o ∧ (element (.object o)).map ofElement = .ok (.object o) := by
  have hread : element (.object untidyEntries) = .ok {
      id := .text "7", kind := .text, left := .int 3, textAlign := some .center,
      extra := { entries := [("mark", .null)] } } := by rfl
  obtain ⟨fields, o, hfields, hwritten, hkept, hback⟩ :=
    (comes_back_kept untidyEntries_keyed).1 _ hread
  obtain rfl := Value.object.inj hfields
  exact ⟨untidyEntries_keyed, _, o, hread, hwritten, (Value.object.inj hwritten).symm, hkept, hback⟩

end Document

end Montage
