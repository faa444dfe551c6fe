/-
# A merge and its report

Changes give each of some fields one value.  Merging them into an entity has three outcomes that
must not part: the fields that are set, the lines of the report, and whether there is another
entity at all.  They hang on one test, `Changes.differs`:

    a change that differs   its field is set, and it has one line, in the order of the changes
    another change          its field is left as it is, and equals the new value
    a field not named       is left as it is

What differs no more after the field was set is not reported again, so a second merge finds nothing
(`Changes.Made.again`).  This is where `nan` has to be kept out: of all values it alone is not equal
to itself (`Value.same_self`).

Equal values may be of different kinds.  A field that holds one keeps it when it is given `true`,
and no line says otherwise.
-/
import Montage.Proofs.Agree
import Montage.Proofs.Fieldwise

namespace Montage

/-! ## Values that equal themselves -/

namespace Value

/-- No number in the value, at any depth, is `nan`. -/
inductive NanFree : Value → Prop
  | null : NanFree .null
  | bool (b : Bool) : NanFree (.bool b)
  | int (n : Int) : NanFree (.int n)
  | float {x : Binary64} : x ≠ .nan → NanFree (.float x)
  | text (s : String) : NanFree (.text s)
  | bytes (bs : List UInt8) : NanFree (.bytes bs)
  | list {items : List Value} : (∀ v ∈ items, NanFree v) → NanFree (.list items)
  | object {fields : List (String × Value)} : (∀ f ∈ fields, NanFree f.2) → NanFree (.object fields)

theorem lookup_of_mem {fields : List (String × Value)} (hnodup : (fields.map Prod.fst).Nodup)
    {f : String × Value} (hf : f ∈ fields) : fields.lookup f.1 = some f.2 := by
  obtain ⟨w, hw⟩ := Option.isSome_iff_exists.mp
    (lookup_isSome_iff.mpr (List.mem_map.mpr ⟨f, hf, rfl⟩))
  rw [hw]
  exact congrArg (some ·.2) (List.inj_on_of_nodup_map hnodup (mem_of_lookup hw) hf rfl)

/-- A value without `nan` equals itself. -/
theorem same_self {v : Value} (hkeyed : v.Keyed) (hnan : v.NanFree) : v.same v = true := by
  induction hkeyed with
  | null => rfl
  | bool b => exact (Definite.bool b).same_self
  | int n => exact (Definite.int n).same_self
  | float x =>
      cases hnan with
      | float hx => exact (Definite.float hx).same_self
  | text s => exact (Definite.text s).same_self
  | bytes bs => exact beq_self_eq_true bs
  | @list items _ ih =>
      cases hnan with
      | list hitems =>
          refine sameItems_iff.mpr ⟨rfl, fun i v w hv hw => ?_⟩
          obtain rfl := Option.some.inj (hv.symm.trans hw)
          exact ih v (List.mem_of_getElem? hv) (hitems v (List.mem_of_getElem? hv))
  | @object fields hnodup _ ih =>
      cases hnan with
      | object hfields =>
          have hsame : sameFields fields fields = true :=
            sameFields_iff.mpr fun f hf => ⟨f.2, lookup_of_mem hnodup hf, ih f hf (hfields f hf)⟩
          rw [same, hsame, beq_self_eq_true, Bool.and_self]

end Value

/-! ## Fields that were set -/

section Entity
variable {α : Type} [Entity α]

/-- The field holds what it was set to, as far as this equals itself. -/
def Entity.HoldsSet (α : Type) [Entity α] : Prop :=
  ∀ (e : α) (f : Entity.Field α) (v : Value) (e' : α), Entity.set e f v = .ok e' →
    Entity.holds e' f v = v.same v

end Entity

theorem Audio.holdsSet : Entity.HoldsSet Audio := by
  intro e f v e' h
  cases f <;> cases h <;> rfl

theorem Note.holdsSet : Entity.HoldsSet Note := by
  intro e f v e' h
  cases f <;> cases h <;> rfl

theorem Page.holdsSet : Entity.HoldsSet Page := by
  intro e f v e' h
  cases f with
  | elements => rw [Page.set_elements h]; rfl
  | _ => cases h; rfl

theorem Element.holdsSet : Entity.HoldsSet Element := by
  intro e f v e' h
  cases f with
  | kind => cases h
  | textAlign =>
      obtain ⟨a, ha, h⟩ := bind_eq_ok.mp h
      cases h
      exact congrArg (·.same v) (Element.alignValue_alignOf ha)
  | extra =>
      obtain ⟨x, hx, h⟩ := bind_eq_ok.mp h
      cases h
      exact congrArg (·.same v) (Extra.value_ofValue hx)
  | _ => cases h; rfl

theorem Collection.holdsSet (c : Collection) : Entity.HoldsSet c.Item := by
  cases c with
  | pages => exact Page.holdsSet
  | audios => exact Audio.holdsSet
  | notes => exact Note.holdsSet
  | elements _ => exact Element.holdsSet

namespace Changes

variable {α : Type} [Entity α] {x y : α} {fps : Number} {frameFields diff : List String}
  {changes : Changes} {es : List Edit} {f : Entity.Field α} {v : Value}

/-! ## Lines -/

/-- The change is of a field that holds another value. -/
def differs (x : α) (d : String × Value) : Bool :=
  (Entity.field? d.1).any fun f => !Entity.holds x f d.2

/-- The line reports the change: the key of its field, the value that the field holds, and the
new one. -/
def Reports (x : α) (fps : Number) (frameFields : List String) (d : String × Value) (l : String) :
    Prop :=
  ∃ (f : Entity.Field α) (before after : String), Entity.field? d.1 = some f ∧
    valueText (frameFields.contains d.1) fps (Entity.get x f) = .ok before ∧
    valueText (frameFields.contains d.1) fps d.2 = .ok after ∧ l = line (Entity.key f) before after

/-- The edits are made of the changes that differ, in their order. -/
theorem edits_eq_ok (hfields : ∀ d ∈ changes, (Entity.field? (α := α) d.1).isSome = true)
    (h : edits x fps frameFields changes = .ok es) :
    List.Forall₂ (fun d b => (b.name, b.value) = d ∧ Reports x fps frameFields d b.line)
      (changes.filter (differs x)) es := by
  obtain ⟨os, hos, h⟩ := bind_eq_ok.mp h
  cases h
  rw [mapM_eq_ok] at hos
  clear h
  induction hos with
  | nil => exact .nil
  | @cons d o ds os hd _ ih =>
      obtain ⟨hfield, hfields⟩ := List.forall_mem_cons.mp hfields
      obtain ⟨f, hf⟩ := Option.isSome_iff_exists.mp hfield
      have hdiffers : differs x d = !Entity.holds x f d.2 := by rw [differs, hf, Option.any_some]
      rcases (edit?_eq_ok hf).mp hd with ⟨hheld, rfl⟩ | ⟨hheld, before, after, hbefore, hafter, rfl⟩
      · rw [List.filter_cons_of_neg (by simp [hdiffers, hheld])]
        exact ih hfields
      · rw [List.filter_cons_of_pos (by simp [hdiffers, hheld])]
        exact .cons ⟨rfl, f, before, after, hf, hbefore, hafter, rfl⟩ (ih hfields)

theorem pairs_of_edits (hfields : ∀ d ∈ changes, (Entity.field? (α := α) d.1).isSome = true)
    (h : edits x fps frameFields changes = .ok es) :
    es.map (fun b => (b.name, b.value)) = changes.filter (differs x) := by
  rw [eq_comm, ← List.forall₂_eq_eq_eq, List.forall₂_map_right_iff]
  exact (edits_eq_ok hfields h).imp fun d b hd => hd.1.symm

/-! ## Changes that are made -/

/-- Every change is of a field that holds the new value already. -/
def Held (changes : Changes) (x : α) : Prop :=
  ∀ d ∈ changes, ∃ f : Entity.Field α, Entity.field? d.1 = some f ∧ Entity.holds x f d.2 = true

/-- A merge of changes that are made already does nothing. -/
theorem merge_of_held (h : changes.Held x) : merge x fps frameFields changes = .ok (x, []) := by
  have hnone : changes.mapM (fun d => edit? x fps frameFields d.1 d.2) =
      .ok (changes.map fun _ => none) := by
    rw [mapM_eq_ok, List.forall₂_map_right_iff, List.forall₂_same]
    intro d hd
    obtain ⟨f, hf, hheld⟩ := h d hd
    exact (edit?_eq_ok hf).mpr (.inl ⟨hheld, rfl⟩)
  have hedits : edits x fps frameFields changes = .ok [] := by simp [edits, hnone]
  exact merge_eq_ok.mpr ⟨[], hedits, fun _ h => absurd h List.not_mem_nil, setFields_nil _, rfl⟩

section Merge
variable [Entity.Fieldwise α]

theorem differs_name : differs x (Entity.name f, v) = !Entity.holds x f v := by
  rw [differs, Entity.Fieldwise.toLawful.field?_name, Option.any_some]

variable (hfields : ∀ d ∈ changes, (Entity.field? (α := α) d.1).isSome = true)
include hfields

section Field
variable (hv : (Entity.name f, v) ∈ changes)
  (honly : ∀ d ∈ changes, d.1 = Entity.name f → d.2 = v)
include hv honly

/-- Which edit is of a field is told by the change of the field. -/
theorem find?_edits (h : edits x fps frameFields changes = .ok es) :
    (es.find? (·.name == Entity.name f)).map Edit.value =
      if Entity.holds x f v then none else some v := by
  have hpairs := pairs_of_edits hfields h
  -- an edit of the field has the value of the change
  have hvalue : ∀ b ∈ es, b.name = Entity.name f → b.value = v ∧ Entity.holds x f v = false := by
    intro b hb hname
    have hmem := List.mem_map_of_mem (f := fun b : Edit => (b.name, b.value)) hb
    rw [hpairs, List.mem_filter] at hmem
    obtain rfl : b.value = v := honly _ hmem.1 hname
    exact ⟨rfl, by simpa [hname, differs_name] using hmem.2⟩
  cases hfound : es.find? (·.name == Entity.name f) with
  | some b =>
      obtain ⟨rfl, hheld⟩ :=
        hvalue b (List.mem_of_find?_eq_some hfound) (by simpa using List.find?_some hfound)
      rw [hheld]
      rfl
  | none =>
      cases hheld : Entity.holds x f v with
      | true => rfl
      | false =>
          have hmem : (Entity.name f, v) ∈ changes.filter (differs x) :=
            List.mem_filter.mpr ⟨hv, by rw [differs_name, hheld]; rfl⟩
          rw [← hpairs] at hmem
          obtain ⟨b, hb, hbv⟩ := List.mem_map.mp hmem
          exact absurd (List.find?_eq_none.mp hfound b hb) (by simp [(Prod.mk.inj hbv).1])

/-- A field for which a value is given is left if it holds the value, and otherwise set to it. -/
theorem field_of_merge (hset : Entity.HoldsSet α)
    (h : merge x fps frameFields changes = .ok (y, diff)) :
    (Entity.get y f, Entity.holds y f v) =
      if Entity.holds x f v then (Entity.get x f, true) else (v, v.same v) := by
  obtain ⟨es, hes, -, hy, -⟩ := merge_eq_ok.mp h
  have hfind := find?_edits hfields hv honly hes
  split at hfind
  case isTrue hheld =>
    rw [Option.map_eq_none_iff, List.find?_eq_none] at hfind
    have hkept := setFields_keeps (setOnlyBy_field f) hy fun _ _ b hb _ => by
      simpa using hfind b hb
    obtain ⟨hget, hholds⟩ := Prod.mk.inj hkept
    rw [hget, hholds, if_pos hheld, hheld]
  case isFalse hheld =>
    obtain ⟨b, hb, rfl⟩ := Option.map_eq_some_iff.mp hfind
    rw [if_neg hheld]
    refine setFields_brings (f := f) (P := fun e => (Entity.get e f, Entity.holds e f b.value) = _)
      (fun hz => ?_) (fun hz hne he => ?_) hb hy
      (.inl (List.mem_of_find?_eq_some (Entity.Fieldwise.toLawful.field?_name f)))
    · rw [(Entity.Fieldwise.toLawful.get_set _ _ _ _ hz).1, hset _ _ _ _ hz]
    · rw [← he, (Entity.Fieldwise.toLawful.get_set _ _ _ _ hz).2 f hne.symm,
        Entity.Fieldwise.holds_set hz f hne.symm]

end Field

/-- After a merge its changes are made. -/
theorem held_of_merge (hset : Entity.HoldsSet α)
    (honce : ∀ d ∈ changes, ∀ d' ∈ changes, d'.1 = d.1 → d'.2 = d.2)
    (hself : ∀ d ∈ changes, d.2.same d.2 = true)
    (h : merge x fps frameFields changes = .ok (y, diff)) : changes.Held y := by
  intro d hd
  obtain ⟨f, hf⟩ := Option.isSome_iff_exists.mp (hfields d hd)
  have hname := Entity.name_of_field? hf
  have hfield := field_of_merge (f := f) hfields (hname ▸ hd)
    (fun e he heq => honce d hd e he (heq.trans hname)) hset h
  refine ⟨f, hf, (congrArg Prod.snd hfield).trans ?_⟩
  split
  · rfl
  · exact hself d hd

end Merge

end Changes

end Montage
