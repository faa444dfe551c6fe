/-
# What a merge leaves alone

Setting fields by name changes what the names name and nothing else.  `SetOnlyBy
names g` says of an observation `g` of an entity that only the fields with these
names can change it; then a list of changes that names none of them keeps `g`, be
it merged (`merge_keeps`) or assigned (`assign_keeps`).  The id of every entity
and the elements of a page are observations of this kind.
-/
import Montage.Edit.Merge
import Montage.Project.Basic
import Montage.Proofs.Peel

namespace Montage

section Entity
variable {α β : Type} [Entity α]

theorem Entity.name_of_field? {name : String} {f : Entity.Field α}
    (h : Entity.field? name = some f) : Entity.name f = name := by
  simpa using List.find?_some h

/-- Only the fields with the given names can change what `g` sees of an entity. -/
def SetOnlyBy (names : List String) (g : α → β) : Prop :=
  ∀ (e : α) (f : Entity.Field α) (v : Value) (e' : α),
    Entity.set e f v = .ok e' → Entity.name f ∉ names → g e' = g e

end Entity

/-! ## The observations -/

theorem Audio.setOnlyBy_id : SetOnlyBy ["id"] (Entity.id : Audio → Value) := by
  intro e f v e' h hf
  cases f <;> cases h <;> first | rfl | exact absurd (List.mem_singleton.mpr rfl) hf

theorem Note.setOnlyBy_id : SetOnlyBy ["id"] (Entity.id : Note → Value) := by
  intro e f v e' h hf
  cases f <;> cases h <;> first | rfl | exact absurd (List.mem_singleton.mpr rfl) hf

theorem Page.set_elements {p p' : Page} {v : Value} (h : p.setElements v = .ok p') :
    p' = { p with elements := [], noElements := v } := by
  unfold Page.setElements at h
  obtain ⟨vs, -, h⟩ := bind_eq_ok.mp h
  cases vs with
  | nil => cases h; rfl
  | cons _ _ => cases h

theorem Page.setOnlyBy_id : SetOnlyBy ["id"] (Entity.id : Page → Value) := by
  intro e f v e' h hf
  cases f with
  | id => exact absurd (List.mem_singleton.mpr rfl) hf
  | elements => rw [Page.set_elements h]; rfl
  | _ => cases h; rfl

theorem Page.setOnlyBy_elements : SetOnlyBy ["elements"] Page.elements := by
  intro e f v e' h hf
  cases f with
  | elements => exact absurd (List.mem_singleton.mpr rfl) hf
  | _ => cases h; rfl

theorem Element.setOnlyBy_id : SetOnlyBy ["id"] (Entity.id : Element → Value) := by
  intro e f v e' h hf
  cases f with
  | id => exact absurd (List.mem_singleton.mpr rfl) hf
  | kind => cases h
  | textAlign =>
      obtain ⟨a, -, h⟩ := bind_eq_ok.mp h
      cases h; rfl
  | extra =>
      obtain ⟨a, -, h⟩ := bind_eq_ok.mp h
      cases h; rfl
  | _ => cases h; rfl

namespace Changes

variable {α β : Type} [Entity α] {names : List String} {g : α → β} {x y : α}

/-! ## Assigning -/

theorem assign_keeps (hg : SetOnlyBy names g) {changes : Changes}
    (h : assign x changes = .ok y) (hn : ∀ c ∈ changes, c.1 ∉ names) : g y = g x := by
  induction changes generalizing x with
  | nil => cases h; rfl
  | cons c cs ih =>
      unfold assign at h
      rw [List.foldlM_cons] at h
      obtain ⟨z, hz, h⟩ := bind_eq_ok.mp h
      have hzx : g z = g x := by
        split at hz
        · cases hz
        · rename_i f hf
          exact hg x f c.2 z hz (Entity.name_of_field? hf ▸ hn c List.mem_cons_self)
      exact (ih h fun d hd => hn d (List.mem_cons_of_mem _ hd)).trans hzx

/-! ## Merging -/

section Edits
variable {fps : Number} {frameFields : List String}

/-- An edit is of a name under which another value stands. -/
theorem edit?_eq_some {name : String} {v : Value} {d : Edit}
    (h : edit? x fps frameFields name v = .ok (some d)) :
    d.name = name ∧ d.value = v ∧ ∃ key old, look x name v = .ok (key, old, false) := by
  unfold edit? at h
  obtain ⟨⟨key, old, same⟩, hlook, h⟩ := bind_eq_ok.mp h
  cases same with
  | true => simp [pure, Except.pure] at h
  | false =>
      obtain ⟨before, -, h⟩ := bind_eq_ok.mp h
      obtain ⟨after, -, h⟩ := bind_eq_ok.mp h
      cases h
      exact ⟨rfl, rfl, key, old, hlook⟩

/-- A change of a field is no edit if the field holds the value, and otherwise one whose line
reports it. -/
theorem edit?_eq_ok {f : Entity.Field α} {v : Value} {name : String}
    (hf : Entity.field? name = some f) {o : Option Edit} :
    edit? x fps frameFields name v = .ok o ↔
      (Entity.holds x f v = true ∧ none = o) ∨
      (Entity.holds x f v = false ∧ ∃ before after,
        valueText (frameFields.contains name) fps (Entity.get x f) = .ok before ∧
        valueText (frameFields.contains name) fps v = .ok after ∧
        some ⟨name, v, line (Entity.key f) before after⟩ = o) := by
  simp only [edit?, look, hf, ok_bind]
  cases Entity.holds x f v with
  | true => simp only [if_true, pure_eq_ok, true_and, Bool.true_eq_false, false_and, or_false]
  | false =>
      simp only [Bool.false_eq_true, if_false, bind_eq_ok, pure_eq_ok, false_and, false_or, true_and,
        exists_and_left]

/-- Every edit is that of a change. -/
theorem mem_edits {changes : Changes} {es : List Edit} {d : Edit}
    (h : edits x fps frameFields changes = .ok es) (hd : d ∈ es) :
    ∃ c ∈ changes, edit? x fps frameFields c.1 c.2 = .ok (some d) := by
  obtain ⟨ds, hds, h⟩ := bind_eq_ok.mp h
  cases h
  rw [List.mem_filterMap] at hd
  obtain ⟨o, ho, rfl⟩ := hd
  exact exists_of_mem_mapM hds ho

/-- Every edit comes from the change with its name and value, which differs from what was there. -/
theorem mem_edits_cases {changes : Changes} {es : List Edit} {d : Edit}
    (h : edits x fps frameFields changes = .ok es) (hd : d ∈ es) :
    (d.name, d.value) ∈ changes ∧ ∃ key old, look x d.name d.value = .ok (key, old, false) := by
  obtain ⟨c, hc, hcd⟩ := mem_edits h hd
  obtain ⟨hname, hvalue, hlook⟩ := edit?_eq_some hcd
  rw [hname, hvalue]
  exact ⟨hc, hlook⟩

theorem mem_of_mem_edits {changes : Changes} {es : List Edit} {d : Edit}
    (h : edits x fps frameFields changes = .ok es) (hd : d ∈ es) :
    (d.name, d.value) ∈ changes := (mem_edits_cases h hd).1

/-- A change that differs from the value of its field is an edit. -/
theorem exists_edit_of_ne {changes : Changes} {es : List Edit} {f : Entity.Field α} {v : Value}
    {name : String} (h : edits x fps frameFields changes = .ok es) (hc : (name, v) ∈ changes)
    (hf : Entity.field? name = some f) (hv : Entity.holds x f v = false) :
    ∃ d ∈ es, d.name = name ∧ d.value = v := by
  obtain ⟨ds, hds, h⟩ := bind_eq_ok.mp h
  cases h
  obtain ⟨o, ho, hcd⟩ := exists_mem_of_mapM hds hc
  rcases (edit?_eq_ok hf).mp hcd with ⟨hheld, -⟩ | ⟨-, _, _, -, -, rfl⟩
  · cases hv.symm.trans hheld
  · exact ⟨_, List.mem_filterMap.mpr ⟨_, ho, rfl⟩, rfl, rfl⟩

theorem setField_of_find? {es : List Edit} {f : Entity.Field α} {d : Edit}
    (h : es.find? (·.name == Entity.name f) = some d) :
    setField es x f = Entity.set x f d.value := by
  simp only [setField, h]

theorem setFields_keeps (hg : SetOnlyBy names g) {es : List Edit} {fs : List (Entity.Field α)}
    (h : fs.foldlM (setField es) x = .ok y)
    (hn : ∀ f ∈ fs, ∀ d ∈ es, d.name = Entity.name f → d.name ∉ names) : g y = g x := by
  induction fs generalizing x with
  | nil => cases h; rfl
  | cons f fs ih =>
      rw [List.foldlM_cons] at h
      obtain ⟨z, hz, h⟩ := bind_eq_ok.mp h
      have hzx : g z = g x := by
        unfold setField at hz
        split at hz
        · rename_i d hd
          have hname : d.name = Entity.name f := by
            simpa using List.find?_some hd
          have hmem := List.mem_of_find?_eq_some hd
          exact hg x f d.value z hz (hname ▸ hn f List.mem_cons_self d hmem hname)
        · cases hz; rfl
      exact (ih h fun f' hf' => hn f' (List.mem_cons_of_mem _ hf')).trans hzx

theorem merge_eq_ok {changes : Changes} {diff : List String} :
    merge x fps frameFields changes = .ok (y, diff) ↔
      ∃ es, edits x fps frameFields changes = .ok es ∧
        (∀ d ∈ es, (Entity.field? (α := α) d.name).isSome = true) ∧
        (Entity.fields (α := α)).foldlM (setField es) x = .ok y ∧ es.map (·.line) = diff := by
  unfold merge apply
  simp only [bind_eq_ok, pure_eq_ok, Prod.mk.injEq]
  constructor
  · rintro ⟨es, hes, z, hz, rfl, rfl⟩
    split at hz
    · rename_i hall
      exact ⟨es, hes, by simpa using hall, hz, rfl⟩
    · cases hz
  · rintro ⟨es, hes, hall, hy, rfl⟩
    refine ⟨es, hes, y, ?_, rfl, rfl⟩
    rw [if_pos (by simpa using hall)]
    exact hy

theorem merge_keeps (hg : SetOnlyBy names g) {changes : Changes} {diff : List String}
    (h : merge x fps frameFields changes = .ok (y, diff)) (hn : ∀ c ∈ changes, c.1 ∉ names) :
    g y = g x := by
  obtain ⟨es, hes, -, hy, -⟩ := merge_eq_ok.mp h
  exact setFields_keeps hg hy fun _ _ d hd _ => hn _ (mem_of_mem_edits hes hd)

end Edits

end Changes

end Montage
