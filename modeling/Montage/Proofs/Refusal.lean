/-
# What stops the reading of a document

Reading a document goes through conversions that fail each in its own way.  All
bad values and wrong types end as an invalid document; two other faults are let
through.  `Stop shapeless infinite f` lists the faults that reading can meet, with
what it takes to meet each of these two:

    invalid document, bad value, wrong type
    no attribute    the composition or the editor state is no object
    overflow        an infinity stands where a whole number is needed

One lemma for each reader says that whatever stops it is on the list; the two
propositions are carried through unchanged, since the places that they speak of
are known only at the top (`project_cases`).
-/
import Montage.Document.Decode
import Montage.Proofs.Peel

namespace Montage

/-- An infinity. -/
def Value.isInfinity : Value → Bool
  | .float x => x.isInfinite
  | _ => false

/-- An object. -/
def Value.isObject : Value → Bool
  | .object _ => true
  | _ => false

/-- Whatever stops the computation is one of the faults. -/
def StopsBy {α : Type} (P : Fault → Prop) (x : Except Fault α) : Prop :=
  ∀ f, x = .error f → P f

namespace StopsBy

variable {α β : Type} {P : Fault → Prop} {x : Except Fault α}

theorem ok {a : α} : StopsBy P (Except.ok a) := nofun

theorem error {f : Fault} (h : P f) : StopsBy P (Except.error f : Except Fault α) := by
  intro g hg
  cases hg
  exact h

theorem bind {g : α → Except Fault β} (hx : StopsBy P x)
    (hg : ∀ a, x = .ok a → StopsBy P (g a)) : StopsBy P (x >>= g) := by
  cases x with
  | error f => exact error (hx f rfl)
  | ok a => exact hg a rfl

theorem map {g : α → β} (hx : StopsBy P x) : StopsBy P (x.map g) := by
  cases x with
  | error f => exact error (hx f rfl)
  | ok a => exact ok

theorem mapM {g : α → Except Fault β} {xs : List α} (h : ∀ a ∈ xs, StopsBy P (g a)) :
    StopsBy P (xs.mapM g) := by
  induction xs with
  | nil => exact ok
  | cons a xs ih =>
      rw [List.mapM_cons]
      refine (h a List.mem_cons_self).bind fun b _ => ?_
      exact (ih fun c hc => h c (List.mem_cons_of_mem _ hc)).bind fun _ _ => ok

end StopsBy

namespace Document

/-- The faults that can stop the reading of a document, in which a part may have no shape and a
number may be infinite. -/
inductive Stop (shapeless infinite : Prop) : Fault → Prop
  | invalid (detail : String) : Stop shapeless infinite (.problem (.invalidDocument detail))
  | badValue (message : String) : Stop shapeless infinite (.badValue message)
  | notText (kind : String) : Stop shapeless infinite (.notText kind)
  | wrongType (message : String) : Stop shapeless infinite (.wrongType message)
  | noAttribute : shapeless → Stop shapeless infinite .noAttribute
  | overflow : infinite → Stop shapeless infinite .overflow

/-! ## The places that matter -/

/-- The entries of an object, none of anything else. -/
def entriesOf : Value → Fields
  | .object fields => fields
  | _ => []

/-- The items of a sequence, none of anything else. -/
def itemsOf (v : Value) : List Value :=
  match v.sequence with
  | .ok items => items
  | .error _ => []

/-- The values in a composition that must give whole numbers. -/
def frameWholes (fields : Fields) : List Value :=
  [Value.entry fields "fps", Value.entry fields "width", Value.entry fields "height"] ++
    (itemsOf (Value.entry fields "pages")).map fun page => Value.entry (entriesOf page) "duration"

/-- The values in a project that must give whole numbers. -/
def wholes (fields : Fields) : List Value :=
  frameWholes (entriesOf (Value.entry fields "composition")) ++
    (itemsOf (Value.entry fields "notes")).map fun note => Value.entry (entriesOf note) "time"

/-- The composition or the editor state of a project is there, and is no object. -/
def Shapeless (fields : Fields) : Prop :=
  ((Value.entry fields "composition").isNull = false ∧
    (Value.entry fields "composition").isObject = false) ∨
  ((Value.entry fields "appState").isTruthy = true ∧
    (Value.entry fields "appState").isObject = false)

section Readers
variable {shapeless infinite : Prop} {v : Value}

/-! ## Entries and conversions -/

theorem find_stops (key : String) : StopsBy (Stop shapeless infinite) (find v key) := by
  cases v with
  | object => exact .ok
  | text s =>
      simp only [find]
      split
      · exact .error (.wrongType _)
      · exact .ok
  | list items =>
      simp only [find]
      split
      · exact .error (.wrongType _)
      · exact .ok
  | _ => exact .error (.wrongType _)

theorem require_stops (key what : String) :
    StopsBy (Stop shapeless infinite) (require v key what) := by
  refine (find_stops key).bind fun w _ => ?_
  cases w with
  | some w => exact .ok
  | none => exact .error (.invalid _)

/-- Only an object has an entry that is required. -/
theorem require_object {key what : String} {w : Value} (h : require v key what = .ok w) :
    ∃ fields, v = .object fields ∧ fields.lookup key = some w := by
  obtain ⟨o, ho, h⟩ := bind_eq_ok.mp h
  cases v with
  | object fields =>
      cases ho
      cases hw : fields.lookup key with
      | some u =>
          rw [hw] at h
          cases h
          exact ⟨fields, rfl, hw⟩
      | none =>
          rw [hw] at h
          cases h
  | text s =>
      simp only [find] at ho
      split at ho <;> cases ho
      cases h
  | list items =>
      simp only [find] at ho
      split at ho <;> cases ho
      cases h
  | _ => cases ho

theorem sequence_stops : StopsBy (Stop shapeless infinite) v.sequence := by
  cases v <;> first | exact .ok | exact .error (.wrongType _)

theorem wholeNumber_stops (h : v.isInfinity = true → infinite) :
    StopsBy (Stop shapeless infinite) (wholeNumber v) := by
  cases v with
  | bool | int => exact .ok
  | float x =>
      cases x with
      | finite n m p hc => exact .ok
      | infinite n => exact .error (.overflow (h rfl))
      | nan => exact .error (.badValue _)
  | text s =>
      simp only [wholeNumber]
      split
      · exact .ok
      · exact .error (.badValue _)
  | bytes bs =>
      simp only [wholeNumber]
      split
      · split
        · exact .ok
        · exact .error (.badValue _)
      · exact .error (.badValue _)
  | _ => exact .error (.wrongType _)

/-- A conversion of a bad value ends as an invalid document. -/
theorem asInvalid_stops {α : Type} {x : Except Fault α}
    (h : StopsBy (Stop shapeless infinite) x) :
    StopsBy (Stop shapeless infinite) (asInvalid x) := by
  cases x with
  | ok => exact .ok
  | error f =>
      simp only [asInvalid]
      split
      · exact .error (.invalid _)
      · exact .error (h f rfl)

theorem isInfinity_entry {fields : Fields} {key : String} {n : Int}
    (h : ((fields.lookup key).getD (.int n)).isInfinity = true) :
    (Value.entry fields key).isInfinity = true := by
  unfold Value.entry
  cases hw : fields.lookup key with
  | some w => rwa [hw] at h
  | none =>
      rw [hw] at h
      cases h

/-! ## Keywords -/

theorem normalize_stops (label : String) :
    StopsBy (Stop shapeless infinite) (Keyword.normalize label v) := by
  cases v with
  | text s =>
      simp only [Keyword.normalize]
      split
      · exact .error (.badValue _)
      split
      · exact .error (.badValue _)
      split
      · exact .error (.badValue _)
      · exact .ok
  | _ => exact .error (.notText _)

theorem kind_stops : StopsBy (Stop shapeless infinite) (ElementKind.read v) := by
  refine (normalize_stops _).bind fun word _ => ?_
  split
  · exact .ok
  · exact .error (.badValue _)

theorem alignment_stops : StopsBy (Stop shapeless infinite) (alignment v) := by
  unfold alignment
  split
  · exact .ok
  · refine .map ((normalize_stops _).bind fun word _ => ?_)
    split
    · exact .ok
    · exact .error (.badValue _)

/-! ## Entities -/

theorem element_stops : StopsBy (Stop shapeless infinite) (element v) := by
  refine (asInvalid_stops ((require_stops _ _).bind fun _ _ => kind_stops)).bind
    fun kind hkind => ?_
  have hobject : ∃ fields, v = .object fields := by
    cases hk : require v "type" "Element" with
    | ok w =>
        obtain ⟨fields, hv, -⟩ := require_object hk
        exact ⟨fields, hv⟩
    | error f =>
        rw [hk] at hkind
        simp only [error_bind, asInvalid] at hkind
        split at hkind <;> cases hkind
  obtain ⟨fields, rfl⟩ := hobject
  refine StopsBy.ok.bind fun entries _ => ?_
  refine (asInvalid_stops alignment_stops).bind fun _ _ => ?_
  exact (require_stops _ _).bind fun _ _ => .ok

theorem page_stops
    (h : ∀ fields, v = .object fields →
      (Value.entry fields "duration").isInfinity = true → infinite) :
    StopsBy (Stop shapeless infinite) (page v) := by
  refine (require_stops _ _).bind fun id hid => ?_
  obtain ⟨fields, rfl, -⟩ := require_object hid
  refine StopsBy.ok.bind fun entries hentries => ?_
  cases hentries
  refine (wholeNumber_stops fun hinf => h fields rfl (isInfinity_entry hinf)).bind fun _ _ => ?_
  refine sequence_stops.bind fun _ _ => ?_
  exact (StopsBy.mapM fun _ _ => element_stops).bind fun _ _ => .ok

theorem audio_stops : StopsBy (Stop shapeless infinite) (audio v) := by
  refine (StopsBy.mapM fun _ _ => find_stops _).bind fun _ _ => ?_
  refine (require_stops _ _).bind fun id hid => ?_
  obtain ⟨fields, rfl, -⟩ := require_object hid
  exact StopsBy.ok.bind fun _ _ => .ok

theorem note_stops
    (h : ∀ fields, v = .object fields →
      (Value.entry fields "time").isInfinity = true → infinite) :
    StopsBy (Stop shapeless infinite) (note v) := by
  refine (require_stops _ _).bind fun id hid => ?_
  obtain ⟨fields, rfl, -⟩ := require_object hid
  refine StopsBy.ok.bind fun entries hentries => ?_
  cases hentries
  exact (wholeNumber_stops fun hinf => h fields rfl (isInfinity_entry hinf)).bind fun _ _ => .ok

/-! ## The parts of a project -/

theorem fieldsOf_stops (h : v.isObject = false → shapeless) :
    StopsBy (Stop shapeless infinite) (fieldsOf v) := by
  cases v with
  | object => exact .ok
  | _ => exact .error (.noAttribute (h rfl))

theorem fieldsOf_eq_ok {fields : Fields} (h : fieldsOf v = .ok fields) : v = .object fields := by
  cases v <;> cases h
  rfl

/-- The items that are read are those of a sequence, or there is nothing to read. -/
theorem mem_itemsOf {items : List Value} {w : Value} (h : (orEmpty v).sequence = .ok items)
    (hw : w ∈ items) : w ∈ itemsOf v := by
  unfold orEmpty at h
  split at h
  · unfold itemsOf
    rw [h]
    exact hw
  · cases h
    cases hw

theorem composition_stops (hshape : v.isObject = false → shapeless)
    (hinf : ∀ fields, v = .object fields → ∀ w ∈ frameWholes fields,
      w.isInfinity = true → infinite) :
    StopsBy (Stop shapeless infinite) (composition v) := by
  refine (fieldsOf_stops hshape).bind fun fields hfields => ?_
  obtain rfl := fieldsOf_eq_ok hfields
  have hinf := hinf fields rfl
  refine (wholeNumber_stops fun h => ?_).bind fun fps _ => ?_
  · split at h
    · exact hinf _ (by simp [frameWholes]) h
    · cases h
  dsimp only
  split
  · exact .error (.invalid _)
  refine (wholeNumber_stops fun h =>
    hinf _ (by simp [frameWholes]) (isInfinity_entry h)).bind fun _ _ => ?_
  refine (wholeNumber_stops fun h =>
    hinf _ (by simp [frameWholes]) (isInfinity_entry h)).bind fun _ _ => ?_
  refine sequence_stops.bind fun pages hpages => ?_
  refine (StopsBy.mapM fun w hw => page_stops fun entries hentries h => ?_).bind fun _ _ => ?_
  · subst hentries
    refine hinf _ ?_ h
    exact List.mem_append_right _ (List.mem_map.mpr ⟨_, mem_itemsOf hpages hw, rfl⟩)
  refine sequence_stops.bind fun _ _ => ?_
  exact (StopsBy.mapM fun _ _ => audio_stops).bind fun _ _ => .ok

theorem appState_stops (h : v.isTruthy = true → v.isObject = false → shapeless) :
    StopsBy (Stop shapeless infinite) (appState v) := by
  unfold appState
  split
  · rename_i htruthy
    exact (fieldsOf_stops (h htruthy)).bind fun _ _ => .ok
  · exact .ok

theorem projectOf_stops {fields : Fields} :
    StopsBy (Stop (Shapeless fields) (∃ w ∈ wholes fields, w.isInfinity = true))
      (projectOf fields) := by
  refine StopsBy.bind ?composition fun _ _ => sequence_stops.bind fun notes hnotes =>
    StopsBy.bind ?notes fun _ _ => StopsBy.bind ?state fun _ _ => .ok
  case composition =>
    unfold composition?
    split
    · exact .ok
    · rename_i hnull
      refine .map (composition_stops (fun h => .inl ⟨by simpa using hnull, h⟩) ?_)
      intro entries hentries w hw h
      refine ⟨w, List.mem_append_left _ ?_, h⟩
      rwa [hentries]
  case notes =>
    refine .mapM fun w hw => note_stops fun entries hentries h => ?_
    subst hentries
    refine ⟨_, List.mem_append_right _ ?_, h⟩
    exact List.mem_map.mpr ⟨_, mem_itemsOf hnotes hw, rfl⟩
  case state => exact appState_stops fun htruthy h => .inr ⟨htruthy, h⟩

end Readers

/-! ## Projects -/

/-- Reading answers with a project or with an invalid document, for every value there is, but for
two cases: a composition or an editor state that is no object, and an infinity in the place of a
whole number. -/
theorem project_cases (v : Value) :
    (∃ p, project v = .ok p) ∨
    (∃ detail, project v = .error (.problem (.invalidDocument detail))) ∨
    (∃ fields, v = .object fields ∧
      ((project v = .error .noAttribute ∧ Shapeless fields) ∨
        (project v = .error .overflow ∧ ∃ w ∈ wholes fields, w.isInfinity = true))) := by
  cases v with
  | object fields =>
      have hstops := @projectOf_stops fields
      cases hread : projectOf fields with
      | ok p => exact .inl ⟨p, by rw [project, hread]; rfl⟩
      | error f =>
          right
          have hproject : project (.object fields) = invalidIfBad (.error f) := by
            rw [project, hread]
          rw [hproject]
          cases hstops f hread with
          | invalid detail => exact .inl ⟨detail, rfl⟩
          | badValue | notText | wrongType => exact .inl ⟨_, rfl⟩
          | noAttribute h => exact .inr ⟨fields, rfl, .inl ⟨rfl, h⟩⟩
          | overflow h => exact .inr ⟨fields, rfl, .inr ⟨rfl, h⟩⟩
  | _ => exact .inr (.inl ⟨_, rfl⟩)

/-- A canvas of infinite width is refused, but not as an invalid document. -/
theorem infinite_width_overflows :
    project (.object [("composition", .object [("width", .float (.infinite false))])]) =
      .error .overflow := rfl

end Document

end Montage
