/-
# Merges of other fields

A field is read and set by its own name only, and whether it can hold a value is a matter of
the value (`Entity.Fieldwise`).  So two merges that name other fields commute
(`Changes.merge_commuteAt`): each of them finds what it would have found without the other, it
reports the same, and the fields can be set in either order.  A merge into a page that does not
name the elements also commutes with whatever is done to them (`Page.merge_commuteAt`).
-/
import Montage.Proofs.Commute
import Montage.Proofs.Fields
import Montage.Proofs.Place

namespace Montage

/-! ## Fields -/

/-- Setting a field does not change whether another one holds a value, two fields can be set in
either order, and whether a field can be set is a matter of the value. -/
class Entity.Fieldwise (α : Type) [Entity α] : Prop extends Entity.Lawful α where
  id_only : SetOnlyBy ["id"] (Entity.id : α → Value)
  holds_set : ∀ {e : α} {f : Entity.Field α} {v : Value} {e' : α}, Entity.set e f v = .ok e' →
    ∀ g, g ≠ f → Entity.holds e' g = Entity.holds e g
  set_comm : ∀ {f g : Entity.Field α}, f ≠ g → ∀ (e : α) (v w : Value),
    ((Entity.set e f v).toOption.bind fun m => (Entity.set m g w).toOption) =
      (Entity.set e g w).toOption.bind fun m => (Entity.set m f v).toOption
  exists_set : ∀ {e : α} {f : Entity.Field α} {v : Value}, (∃ t, Entity.set e f v = .ok t) →
    ∀ e', ∃ t, Entity.set e' f v = .ok t

instance : Entity.Fieldwise Audio where
  toLawful := Audio.lawful
  id_only := Audio.setOnlyBy_id
  holds_set {e f v e'} h g hg := by
    cases f <;> cases g <;> cases h <;> first | rfl | exact absurd rfl hg
  set_comm {f g} h e v w := by
    cases f <;> cases g <;> first | rfl | exact absurd rfl h
  exists_set {e f v} _ e' := by cases f <;> exact ⟨_, rfl⟩

instance : Entity.Fieldwise Note where
  toLawful := Note.lawful
  id_only := Note.setOnlyBy_id
  holds_set {e f v e'} h g hg := by
    cases f <;> cases g <;> cases h <;> first | rfl | exact absurd rfl hg
  set_comm {f g} h e v w := by
    cases f <;> cases g <;> first | rfl | exact absurd rfl h
  exists_set {e f v} _ e' := by cases f <;> exact ⟨_, rfl⟩

namespace Page

variable {f g : Field} {p p' : Page} {v : Value}

theorem setElements_toOption :
    (p.setElements v).toOption = (v.sequence.toOption.filter List.isEmpty).map fun _ =>
      { p with elements := [], noElements := v } := by
  unfold setElements
  cases v.sequence with
  | error f => rfl
  | ok vs => cases vs <;> rfl

theorem holds_set (h : p.set f v = .ok p') (g : Field) (hg : g ≠ f) : p'.holds g = p.holds g := by
  cases f with
  | elements =>
      rw [Page.set_elements h]
      cases g <;> first | rfl | exact absurd rfl hg
  | _ => cases h; cases g <;> first | rfl | exact absurd rfl hg

theorem set_comm (h : f ≠ g) (p : Page) (v w : Value) :
    ((p.set f v).toOption.bind fun m => (m.set g w).toOption) =
      (p.set g w).toOption.bind fun m => (m.set f v).toOption := by
  have helements (u : Value) (p : Page) : (p.set .elements u).toOption = _ :=
    setElements_toOption
  cases f with
  | elements =>
      simp only [helements]
      cases g with
      | elements => exact absurd rfl h
      | _ => cases v.sequence.toOption.filter List.isEmpty <;> rfl
  | _ =>
      cases g with
      | elements =>
          simp only [helements]
          cases w.sequence.toOption.filter List.isEmpty <;> rfl
      | _ => first | rfl | exact absurd rfl h

theorem exists_set (h : ∃ t, p.set f v = .ok t) (p' : Page) : ∃ t, p'.set f v = .ok t := by
  cases f with
  | elements =>
      obtain ⟨t, ht⟩ := h
      obtain ⟨vs, hvs, ht⟩ := bind_eq_ok.mp ht
      cases vs with
      | nil => exact ⟨_, bind_eq_ok.mpr ⟨[], hvs, rfl⟩⟩
      | cons _ _ => cases ht
  | _ => exact ⟨_, rfl⟩

end Page

instance : Entity.Fieldwise Page where
  toLawful := Page.lawful
  id_only := Page.setOnlyBy_id
  holds_set := Page.holds_set
  set_comm := Page.set_comm
  exists_set := Page.exists_set

namespace Element

variable {f g : Field} {e e' : Element} {v : Value}

theorem holds_set (h : e.set f v = .ok e') (g : Field) (hg : g ≠ f) : e'.holds g = e.holds g := by
  cases f with
  | kind => cases h
  | textAlign | extra =>
      obtain ⟨_, -, h⟩ := bind_eq_ok.mp h
      cases h
      cases g <;> first | rfl | exact absurd rfl hg
  | _ => cases h; cases g <;> first | rfl | exact absurd rfl hg

theorem set_comm (h : f ≠ g) (e : Element) (v w : Value) :
    ((e.set f v).toOption.bind fun m => (m.set g w).toOption) =
      (e.set g w).toOption.bind fun m => (m.set f v).toOption := by
  -- only the values of an alignment and of the entries beside the fields are converted
  cases f <;> cases g <;> first
    | exact absurd rfl h
    | rfl
    | (rw [set, set]; cases alignOf v <;> rfl)
    | (rw [set, set]; cases alignOf w <;> rfl)
    | (simp only [set]; cases Extra.ofValue v <;> rfl)
    | (simp only [set]; cases Extra.ofValue w <;> rfl)
    | (simp only [set]; cases alignOf v <;> cases Extra.ofValue w <;> rfl)
    | (simp only [set]; cases alignOf w <;> cases Extra.ofValue v <;> rfl)

theorem exists_set (h : ∃ t, e.set f v = .ok t) (e' : Element) : ∃ t, e'.set f v = .ok t := by
  obtain ⟨t, ht⟩ := h
  cases f with
  | kind => cases ht
  | textAlign | extra =>
      obtain ⟨a, ha, -⟩ := bind_eq_ok.mp ht
      exact ⟨_, bind_eq_ok.mpr ⟨a, ha, rfl⟩⟩
  | _ => exact ⟨_, rfl⟩

end Element

instance : Entity.Fieldwise Element where
  toLawful := Element.lawful
  id_only := Element.setOnlyBy_id
  holds_set := Element.holds_set
  set_comm := Element.set_comm
  exists_set := Element.exists_set

instance (c : Collection) : Entity.Fieldwise c.Item :=
  match c with
  | .pages => inferInstanceAs (Entity.Fieldwise Page)
  | .audios => inferInstanceAs (Entity.Fieldwise Audio)
  | .notes => inferInstanceAs (Entity.Fieldwise Note)
  | .elements _ => inferInstanceAs (Entity.Fieldwise Element)

/-! ## Merges -/

namespace Changes

variable {α : Type} [Entity α] {x y t : α} {fps fps' : Number}
  {frameFields frameFields' : List String} {changes changes' : Changes} {d e : List String}

/-- The steps of merging changes. -/
def Merges (fps : Number) (frameFields : List String) (changes : Changes) (d : List String)
    (x y : α) : Prop :=
  merge x fps frameFields changes = .ok (y, d)

theorem merges_silent : Silent (Merges (α := α) fps frameFields changes) := fun h => eq_of_merge h

/-- Edits are told by what stands under the names. -/
theorem edits_congr (h : ∀ c ∈ changes, look y c.1 c.2 = look x c.1 c.2) :
    edits y fps frameFields changes = edits x fps frameFields changes := by
  have hedit : ∀ c ∈ changes,
      edit? y fps frameFields c.1 c.2 = edit? x fps frameFields c.1 c.2 := by
    intro c hc
    rw [edit?, edit?, h c hc]
  unfold edits
  rw [mapM_congr hedit]

theorem does_setField_of_none {es : List Edit} {f : Entity.Field α}
    (h : es.find? (·.name == Entity.name f) = none) : Does (setField es · f) = Eq := by
  have hset : (setField es · f) = (.ok : α → Except Fault α) := by
    funext x
    simp only [setField, h]
  rw [hset, does_pure]

/-- What no setting of a field undoes is left by a merge. -/
theorem merges_preserve {P : α → Prop}
    (hset : ∀ {e f v e'}, Entity.set e f v = .ok e' → P e → P e')
    (h : Merges fps frameFields changes d x y) (hx : P x) : P y := by
  obtain ⟨es, -, -, hy, -⟩ := merge_eq_ok.mp h
  clear h
  generalize Entity.fields (α := α) = fs at hy
  induction fs generalizing x with
  | nil =>
      cases hy
      exact hx
  | cons f fs ih =>
      rw [List.foldlM_cons] at hy
      obtain ⟨z, hz, hy⟩ := bind_eq_ok.mp hy
      refine ih ?_ hy
      unfold setField at hz
      split at hz
      · exact hset hz hx
      · cases hz
        exact hx

section Fieldwise
variable [Entity.Fieldwise α]

theorem merges_keepsId (h : ∀ c ∈ changes, c.1 ≠ "id") :
    KeepsId (Merges (α := α) fps frameFields changes) := fun hmerge =>
  merge_keeps Entity.Fieldwise.id_only hmerge fun c hc => by simpa using h c hc

/-- What a field shows, and which values it holds. -/
theorem setOnlyBy_field (f : Entity.Field α) :
    SetOnlyBy [Entity.name f] fun e : α => (Entity.get e f, Entity.holds e f) := by
  intro e g w e' h hg
  have hne : f ≠ g := by
    rintro rfl
    exact hg List.mem_cons_self
  exact Prod.ext ((Entity.Fieldwise.toLawful.get_set e g w e' h).2 f hne)
    (Entity.Fieldwise.holds_set h f hne)

/-- A merge keeps what stands under the name of another field. -/
theorem look_of_merges (h : Merges fps frameFields changes d x y) {name : String} {v : Value}
    (hfield : (Entity.field? (α := α) name).isSome = true) (hn : ∀ c ∈ changes, c.1 ≠ name) :
    look y name v = look x name v := by
  obtain ⟨f, hf⟩ := Option.isSome_iff_exists.mp hfield
  have hsame := merge_keeps (setOnlyBy_field f) h fun c hc => by
    simpa [Entity.name_of_field? hf] using hn c hc
  obtain ⟨hget, hholds⟩ := Prod.mk.inj hsame
  simp only [look, hf, hget, hholds]

/-- Edits of other names can be made in either order, field by field. -/
theorem setField_comm {es es' : List Edit} (h : ∀ d ∈ es, ∀ d' ∈ es', d.name ≠ d'.name)
    (f g : Entity.Field α) : Relation.Comp (Does (setField es · f)) (Does (setField es' · g)) =
      Relation.Comp (Does (setField es' · g)) (Does (setField es · f)) := by
  cases hd : es.find? (·.name == Entity.name f) with
  | none =>
      rw [does_setField_of_none hd]
      exact Relation.eq_comp.trans Relation.comp_eq.symm
  | some d =>
      cases hd' : es'.find? (·.name == Entity.name g) with
      | none =>
          rw [does_setField_of_none hd']
          exact Relation.comp_eq.trans Relation.eq_comp.symm
      | some d' =>
          have hf : d.name = Entity.name f := by simpa using List.find?_some hd
          have hg : d'.name = Entity.name g := by simpa using List.find?_some hd'
          have hne : f ≠ g := by
            rintro rfl
            exact h d (List.mem_of_find?_eq_some hd) d' (List.mem_of_find?_eq_some hd')
              (hf.trans hg.symm)
          funext x t
          simp only [comp_does_iff, setField, hd, hd', Entity.Fieldwise.set_comm hne]

theorem exists_setField {es : List Edit} (f : Entity.Field α)
    (h : ∃ y, setField es x f = .ok y) (x' : α) : ∃ y, setField es x' f = .ok y := by
  unfold setField at h ⊢
  split at h
  · exact Entity.Fieldwise.exists_set h x'
  · exact ⟨x', rfl⟩

/-- Two merges one after the other, told by the edits that each of them makes by itself. -/
theorem comp_merges_iff (hfields : ∀ c ∈ changes', (Entity.field? (α := α) c.1).isSome = true)
    (hdisjoint : ∀ c ∈ changes, ∀ c' ∈ changes', c.1 ≠ c'.1) :
    Relation.Comp (Merges fps frameFields changes d) (Merges fps' frameFields' changes' e) x t ↔
      ∃ es es', edits x fps frameFields changes = .ok es ∧
        edits x fps' frameFields' changes' = .ok es' ∧
        (∀ b ∈ es, (Entity.field? (α := α) b.name).isSome = true) ∧
        (∀ b ∈ es', (Entity.field? (α := α) b.name).isSome = true) ∧
        es.map (·.line) = d ∧ es'.map (·.line) = e ∧
        Relation.Comp (Does fun s => Entity.fields.foldlM (setField es) s)
          (Does fun s => Entity.fields.foldlM (setField es') s) x t := by
  have hedits {y : α} (hy : Merges fps frameFields changes d x y) :
      edits y fps' frameFields' changes' = edits x fps' frameFields' changes' :=
    edits_congr fun c' hc' =>
      look_of_merges hy (hfields c' hc') fun c hc => hdisjoint c hc c' hc'
  constructor
  · rintro ⟨y, hy, ht⟩
    obtain ⟨es', hes', hall', ht, he⟩ := merge_eq_ok.mp ht
    rw [hedits hy] at hes'
    obtain ⟨es, hes, hall, hy, hd⟩ := merge_eq_ok.mp hy
    exact ⟨es, es', hes, hes', hall, hall', hd, he, y, hy, ht⟩
  · rintro ⟨es, es', hes, hes', hall, hall', hd, he, y, hy, ht⟩
    have hmerges : Merges fps frameFields changes d x y :=
      merge_eq_ok.mpr ⟨es, hes, hall, hy, hd⟩
    rw [← hedits hmerges] at hes'
    exact ⟨y, hmerges, merge_eq_ok.mpr ⟨es', hes', hall', ht, he⟩⟩

/-- Merges that name other fields commute. -/
theorem merge_commuteAt (hfields : ∀ c ∈ changes, (Entity.field? (α := α) c.1).isSome = true)
    (hfields' : ∀ c ∈ changes', (Entity.field? (α := α) c.1).isSome = true)
    (hdisjoint : ∀ c ∈ changes, ∀ c' ∈ changes', c.1 ≠ c'.1) (x : α) :
    CommuteAt (Merges fps frameFields changes d) (Merges fps' frameFields' changes' e) x := by
  have hdisjoint' : ∀ c ∈ changes', ∀ c' ∈ changes, c.1 ≠ c'.1 :=
    fun c hc c' hc' => (hdisjoint c' hc' c hc).symm
  have hcomm {es es' : List Edit} (hes : edits x fps frameFields changes = .ok es)
      (hes' : edits x fps' frameFields' changes' = .ok es') :=
    foldlM_comm fun f (_ : f ∈ Entity.fields (α := α)) g (_ : g ∈ Entity.fields (α := α)) =>
      setField_comm (fun b hb b' hb' =>
        hdisjoint _ (mem_of_mem_edits hes hb) _ (mem_of_mem_edits hes' hb')) f g
  constructor
  case comp_iff =>
    intro t
    rw [comp_merges_iff hfields' hdisjoint, comp_merges_iff hfields hdisjoint']
    constructor
    · rintro ⟨es, es', hes, hes', hall, hall', hd, he, ht⟩
      exact ⟨es', es, hes', hes, hall', hall, he, hd, hcomm hes hes' ▸ ht⟩
    · rintro ⟨es', es, hes', hes, hall', hall, he, hd, ht⟩
      exact ⟨es, es', hes, hes', hall, hall', hd, he, (hcomm hes hes').symm ▸ ht⟩
  case joins =>
    rintro ⟨y, hy⟩ ⟨z, hz⟩
    obtain ⟨es, hes, hall, hy, hd⟩ := merge_eq_ok.mp hy
    obtain ⟨es', hes', hall', hz, he⟩ := merge_eq_ok.mp hz
    obtain ⟨t, ht⟩ := exists_foldlM
      (fun f _ s s' h => exists_setField f h s') ⟨z, hz⟩ y
    exact ⟨t, (comp_merges_iff hfields' hdisjoint).mpr
      ⟨es, es', hes, hes', hall, hall', hd, he, y, hy, ht⟩⟩

/-- Merges into the first items with two ids commute, unless the changes name one field of one item
twice. -/
theorem atFirst_commuteAt {xs : List α} {id id' : Value} (hid : ∀ c ∈ changes, c.1 ≠ "id")
    (hid' : ∀ c ∈ changes', c.1 ≠ "id")
    (h : ∀ i, Collection.place? xs id = some i → Collection.place? xs id' = some i →
      (∀ c ∈ changes, (Entity.field? (α := α) c.1).isSome = true) ∧
        (∀ c ∈ changes', (Entity.field? (α := α) c.1).isSome = true) ∧
        ∀ c ∈ changes, ∀ c' ∈ changes', c.1 ≠ c'.1) :
    CommuteAt (AtFirst id (Merges fps frameFields changes) d)
      (AtFirst id' (Merges fps' frameFields' changes') e) xs := by
  refine Montage.atFirst_commuteAt (merges_keepsId hid) (merges_keepsId hid') merges_silent
    merges_silent fun i x hi hi' _ => ?_
  obtain ⟨hfields, hfields', hdisjoint⟩ := h i hi hi'
  exact merge_commuteAt hfields hfields' hdisjoint x

end Fieldwise
end Changes

/-! ## The elements of a page -/

namespace Page

open Changes

variable {x t : Page} {elements : List Element} {fps : Number} {frameFields : List String}
  {changes : Changes} {d e : List String} {R : List String → List Element → List Element → Prop}

/-- The elements of a page as a part of it. -/
def elementsCell : Cell Page (List Element) where
  get? p := some p.elements
  put := withElements
  get?_put _ _ := rfl
  put_put _ _ _ := rfl

theorem through_keepsId : KeepsId (elementsCell.Through R) := by
  rintro d x _ ⟨xs, ys, -, -, rfl⟩
  unfold Cell.store
  split <;> rfl

theorem look_withElements {name : String} {v : Value} (hn : name ≠ "elements") :
    look (x.withElements elements) name v = look x name v := by
  unfold look
  cases hf : Entity.field? (α := Page) name with
  | none => rfl
  | some f =>
      have hname := Entity.name_of_field? hf
      cases f with
      | elements => exact absurd hname.symm hn
      | _ => rfl

/-- Putting other elements on a page, as a step that cannot fail. -/
def putElements (elements : List Element) (x : Page) : Except Fault Page :=
  .ok (x.withElements elements)

theorem setField_withElements {es : List Edit} (elements : List Element)
    (hn : ∀ b ∈ es, b.name ≠ "elements") (f : Field) :
    Relation.Comp (Does (putElements elements)) (Does (setField es · f)) =
      Relation.Comp (Does (setField es · f)) (Does (putElements elements)) := by
  funext x t
  rw [comp_does_iff, comp_does_iff]
  cases hb : es.find? (·.name == Entity.name (α := Page) f) with
  | none =>
      simp only [setField, hb]
      rfl
  | some b =>
      have hname : b.name = Entity.name (α := Page) f := by simpa using List.find?_some hb
      simp only [setField, hb]
      cases f with
      | elements => exact absurd hname (hn b (List.mem_of_find?_eq_some hb))
      | _ => rfl

/-- A merge that does not name the elements does the same whatever they are. -/
theorem merges_withElements_iff (hn : ∀ c ∈ changes, c.1 ≠ "elements") :
    Merges fps frameFields changes d (x.withElements elements) t ↔
      ∃ y, Merges fps frameFields changes d x y ∧ t = y.withElements elements := by
  have hedits : edits (x.withElements elements) fps frameFields changes =
      edits x fps frameFields changes := edits_congr fun c hc => look_withElements (hn c hc)
  have hcomp {es : List Edit} (hes : edits x fps frameFields changes = .ok es) :=
    congrFun₂ (comp_foldlM fun f (_ : f ∈ Entity.fields (α := Page)) =>
      setField_withElements elements (fun b hb => hn _ (mem_of_mem_edits hes hb)) f) x t
  unfold Merges
  constructor
  · intro h
    obtain ⟨es, hes, hall, ht, hd⟩ := merge_eq_ok.mp h
    rw [hedits] at hes
    obtain ⟨y, hy, ht⟩ := (hcomp hes).mp ⟨_, rfl, ht⟩
    exact ⟨y, merge_eq_ok.mpr ⟨es, hes, hall, hy, hd⟩, (Except.ok.inj ht).symm⟩
  · rintro ⟨y, hy, rfl⟩
    obtain ⟨es, hes, hall, hy, hd⟩ := merge_eq_ok.mp hy
    obtain ⟨_, hput, ht⟩ := (hcomp hes).mpr ⟨y, hy, rfl⟩
    obtain rfl := Except.ok.inj hput
    exact merge_eq_ok.mpr ⟨es, hedits.trans hes, hall, ht, hd⟩

/-- A merge that does not name the elements commutes with a step of the elements. -/
theorem merge_commuteAt (hn : ∀ c ∈ changes, c.1 ≠ "elements") (x : Page) :
    CommuteAt (Merges fps frameFields changes d) (elementsCell.Through R e) x := by
  have hkeeps {y : Page} (hy : Merges fps frameFields changes d x y) : y.elements = x.elements :=
    merge_keeps setOnlyBy_elements hy fun c hc => by simpa using hn c hc
  have hstore {t : Page} {ys : List Element} :
      Merges fps frameFields changes d (elementsCell.store e x ys) t ↔ ∃ y, Merges fps frameFields changes d x y ∧ t = elementsCell.store e y ys := by
    unfold Cell.store
    split
    · exact ⟨fun h => ⟨t, h, rfl⟩, fun ⟨y, hy, ht⟩ => ht ▸ hy⟩
    · exact merges_withElements_iff hn
  refine ⟨fun t => ⟨?_, ?_⟩, ?_⟩
  · rintro ⟨y, hy, xs, ys, hxs, hR, rfl⟩
    obtain rfl := Option.some.inj hxs
    rw [hkeeps hy] at hR
    exact ⟨_, ⟨_, ys, rfl, hR, rfl⟩, hstore.mpr ⟨y, hy, rfl⟩⟩
  · rintro ⟨_, ⟨xs, ys, hxs, hR, rfl⟩, ht⟩
    obtain rfl := Option.some.inj hxs
    obtain ⟨y, hy, rfl⟩ := hstore.mp ht
    rw [← hkeeps hy] at hR
    exact ⟨y, hy, _, ys, rfl, hR, rfl⟩
  · rintro ⟨y, hy⟩ ⟨_, xs, ys, hxs, hR, rfl⟩
    obtain rfl := Option.some.inj hxs
    rw [← hkeeps hy] at hR
    exact ⟨_, y, hy, _, ys, rfl, hR, rfl⟩

/-- A merge into a page commutes with a step of one of its elements, unless it names the
elements. -/
theorem atFirst_commuteAt {R : List String → Element → Element → Prop} {x : Page} {id : Value}
    (h : ∀ i, Collection.place? x.elements id = some i → ∀ c ∈ changes, c.1 ≠ "elements") :
    CommuteAt (Merges fps frameFields changes d) (elementsCell.Through (AtFirst id R) e) x := by
  cases hplace : Collection.place? x.elements id with
  | some i => exact merge_commuteAt (h i hplace) x
  | none =>
      -- no element has the id, neither before the merge nor after it
      have hnone {y t : Page} (hy : Collection.place? y.elements id = none) :
          ¬ elementsCell.Through (AtFirst id R) e y t := by
        rintro ⟨_, ys, hxs, ⟨i, hi, -⟩, -⟩
        obtain rfl := Option.some.inj hxs
        cases hy.symm.trans hi
      have hafter {y : Page} (hy : Merges fps frameFields changes d x y) :
          Collection.place? y.elements id = none := by
        refine merges_preserve (P := fun y => Collection.place? y.elements id = none)
          (fun {p f v p'} hset hp => ?_) hy hplace
        cases f with
        | elements => rw [set_elements hset]; rfl
        | _ => cases hset; exact hp
      exact ⟨fun t => ⟨fun ⟨y, hy, ht⟩ => absurd ht (hnone (hafter hy)),
        fun ⟨y, hy, _⟩ => absurd hy (hnone hplace)⟩, fun _ ⟨t, ht⟩ => absurd ht (hnone hplace)⟩

end Page

end Montage
