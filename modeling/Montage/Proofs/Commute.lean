/-
# Steps that commute

Two steps commute at a state (`CommuteAt`) if they lead to the same states in either order,
and if both can be made of it then also one after the other.  A step here is a relation of a
state and the next one; steps with a report are a relation for each report, and those that
report nothing leave the state as it is (`Silent`).

    of disjoint cells of a state           they commute                (`Cell.Apart.commuteAt`)
    of one cell                            if they commute there       (`Cell.commuteAt`)
    of the first items with two ids        if the places differ, or
                                           they commute at the item    (`atFirst_commuteAt`)

A cell is a part of a state that can be read and replaced.  A step of a cell is one of the
whole state (`Cell.Through`), which replaces the cell only if there is something to report.
-/
import Mathlib.Logic.Relation
import Montage.Proofs.Collection

namespace Montage

/-! ## Two steps -/

/-- From `s`, the two steps lead to the same states in either order, and if each of them leads
somewhere then both together do. -/
structure CommuteAt {σ : Type} (R S : σ → σ → Prop) (s : σ) : Prop where
  comp_iff : ∀ t, Relation.Comp R S s t ↔ Relation.Comp S R s t
  joins : (∃ t, R s t) → (∃ t, S s t) → ∃ t, Relation.Comp R S s t

theorem CommuteAt.symm {σ : Type} {R S : σ → σ → Prop} {s : σ} (h : CommuteAt R S s) :
    CommuteAt S R s where
  comp_iff t := (h.comp_iff t).symm
  joins hs hr := (h.joins hr hs).imp fun t => (h.comp_iff t).mp

/-- Nothing changes in a step without a report. -/
def Silent {σ : Type} (R : List String → σ → σ → Prop) : Prop :=
  ∀ {s t}, R [] s t → t = s

/-! ## Cells -/

/-- A part of a state: what it holds, if it is there, and the state with another content. -/
structure Cell (σ τ : Type) where
  get? : σ → Option τ
  put : σ → τ → σ
  get?_put : ∀ {s x}, get? s = some x → ∀ y, get? (put s y) = some y
  put_put : ∀ {s x}, get? s = some x → ∀ y z, put (put s y) z = put s z

namespace Cell

variable {σ τ υ : Type} {l : Cell σ τ} {m : Cell σ υ} {R S : List String → τ → τ → Prop}
  {s t : σ} {x y z : τ} {d e : List String}

/-- The state with another content of the cell, if there is something to report. -/
def store (l : Cell σ τ) (d : List String) (s : σ) (y : τ) : σ := if d = [] then s else l.put s y

/-- A step of the cell as one of the state. -/
def Through (l : Cell σ τ) (R : List String → τ → τ → Prop) (d : List String) (s t : σ) : Prop :=
  ∃ x y, l.get? s = some x ∧ R d x y ∧ t = l.store d s y

theorem through_silent : Silent (l.Through R) := by
  rintro s t ⟨x, y, -, -, rfl⟩
  rfl

theorem get?_store (hR : Silent R) (hx : l.get? s = some x) (hy : R d x y) :
    l.get? (l.store d s y) = some y := by
  unfold store
  split
  case isTrue hd =>
    subst hd
    rw [hx, hR hy]
  case isFalse => exact l.get?_put hx y

/-- Two steps of one cell, one after the other, are one step of it. -/
theorem comp_through_iff (hR : Silent R) (hS : Silent S) (hx : l.get? s = some x) :
    Relation.Comp (l.Through R d) (l.Through S e) s t ↔
      ∃ z, Relation.Comp (R d) (S e) x z ∧ t = l.store (d ++ e) s z := by
  have hstore {y z : τ} (hy : R d x y) (hz : S e y z) :
      l.store e (l.store d s y) z = l.store (d ++ e) s z := by
    unfold store
    by_cases hd : d = []
    · simp [hd]
    · by_cases he : e = []
      · subst he
        rw [hS hz]
        simp [hd]
      · simp [hd, he, l.put_put hx]
  constructor
  · rintro ⟨_, ⟨x', y, hx', hy, rfl⟩, y', z, hy', hz, rfl⟩
    obtain rfl := Option.some.inj (hx.symm.trans hx')
    obtain rfl := Option.some.inj ((get?_store hR hx hy).symm.trans hy')
    exact ⟨z, ⟨y, hy, hz⟩, hstore hy hz⟩
  · rintro ⟨z, ⟨y, hy, hz⟩, rfl⟩
    exact ⟨_, ⟨x, y, hx, hy, rfl⟩, y, z, get?_store hR hx hy, hz, (hstore hy hz).symm⟩

/-- Steps of one cell commute if they commute at what it holds. -/
theorem commuteAt (hR : Silent R) (hS : Silent S)
    (h : ∀ x, l.get? s = some x → CommuteAt (R d) (S e) x) :
    CommuteAt (l.Through R d) (l.Through S e) s where
  comp_iff t := by
    have hread {R S : List String → τ → τ → Prop} {d e : List String}
        (h : Relation.Comp (l.Through R d) (l.Through S e) s t) : ∃ x, l.get? s = some x := by
      obtain ⟨_, ⟨x, _, hx, -⟩, -⟩ := h
      exact ⟨x, hx⟩
    have hstore (z : τ) : l.store (d ++ e) s z = l.store (e ++ d) s z := by
      simp only [store, List.append_eq_nil_iff, and_comm]
    constructor
    · intro hcomp
      obtain ⟨x, hx⟩ := hread hcomp
      obtain ⟨z, hz, rfl⟩ := (comp_through_iff hR hS hx).mp hcomp
      exact (comp_through_iff hS hR hx).mpr ⟨z, ((h x hx).comp_iff z).mp hz, hstore z⟩
    · intro hcomp
      obtain ⟨x, hx⟩ := hread hcomp
      obtain ⟨z, hz, rfl⟩ := (comp_through_iff hS hR hx).mp hcomp
      exact (comp_through_iff hR hS hx).mpr ⟨z, ((h x hx).comp_iff z).mpr hz, (hstore z).symm⟩
  joins := by
    rintro ⟨_, x, y, hx, hy, -⟩ ⟨_, x', y', hx', hy', -⟩
    obtain rfl := Option.some.inj (hx.symm.trans hx')
    obtain ⟨z, hz⟩ := (h x hx).joins ⟨y, hy⟩ ⟨y', hy'⟩
    exact ⟨_, (comp_through_iff hR hS hx).mpr ⟨z, hz, rfl⟩⟩

/-- Neither of two cells shows what the other one holds. -/
structure Apart (l : Cell σ τ) (m : Cell σ υ) : Prop where
  get?_left : ∀ s z, l.get? (m.put s z) = l.get? s
  get?_right : ∀ s y, m.get? (l.put s y) = m.get? s
  put_comm : ∀ s y z, m.put (l.put s y) z = l.put (m.put s z) y

namespace Apart

theorem symm (h : l.Apart m) : m.Apart l :=
  ⟨h.get?_right, h.get?_left, fun s y z => (h.put_comm s z y).symm⟩

/-- Steps of cells that are apart commute. -/
theorem commuteAt {S : List String → υ → υ → Prop} (h : l.Apart m) :
    CommuteAt (l.Through R d) (m.Through S e) s := by
  have hleft (w : υ) : l.get? (m.store e s w) = l.get? s := by
    unfold store
    split
    · rfl
    · exact h.get?_left s w
  have hright (y : τ) : m.get? (l.store d s y) = m.get? s := by
    unfold store
    split
    · rfl
    · exact h.get?_right s y
  have hstore (y : τ) (w : υ) : m.store e (l.store d s y) w = l.store d (m.store e s w) y := by
    unfold store
    by_cases hd : d = [] <;> by_cases he : e = [] <;> simp [hd, he, h.put_comm]
  refine ⟨fun t => ⟨?_, ?_⟩, ?_⟩
  · rintro ⟨_, ⟨x, y, hx, hy, rfl⟩, z, w, hz, hw, rfl⟩
    exact ⟨_, ⟨z, w, (hright y).symm.trans hz, hw, rfl⟩, x, y, (hleft w).trans hx, hy,
      hstore y w⟩
  · rintro ⟨_, ⟨z, w, hz, hw, rfl⟩, x, y, hx, hy, rfl⟩
    exact ⟨_, ⟨x, y, (hleft w).symm.trans hx, hy, rfl⟩, z, w, (hright y).trans hz, hw,
      (hstore y w).symm⟩
  · rintro ⟨_, x, y, hx, hy, rfl⟩ ⟨_, z, w, hz, hw, rfl⟩
    exact ⟨_, _, ⟨x, y, hx, hy, rfl⟩, z, w, (hright y).trans hz, hw, rfl⟩

end Apart

/-- A place of a list. -/
def place {α : Type} (i : Nat) : Cell (List α) α where
  get? xs := xs[i]?
  put xs y := xs.set i y
  get?_put {xs x} hx y := by
    obtain ⟨hi, -⟩ := List.getElem?_eq_some_iff.mp hx
    exact List.getElem?_set_self hi
  put_put _ y z := List.set_set y

theorem place_apart {α : Type} {i j : Nat} (h : i ≠ j) :
    (place i : Cell (List α) α).Apart (place j) where
  get?_left _ _ := List.getElem?_set_ne h.symm
  get?_right _ _ := List.getElem?_set_ne h
  put_comm _ y z := List.set_comm y z h

end Cell

/-! ## The first item with an id -/

section First
variable {α : Type} [Entity α] {R S : List String → α → α → Prop} {xs ys : List α}
  {id id' : Value} {d e : List String} {i : Nat}

/-- A step of the first item with an id, as one of the list. -/
def AtFirst (id : Value) (R : List String → α → α → Prop) (d : List String) (xs ys : List α) :
    Prop :=
  ∃ i, Collection.place? xs id = some i ∧ (Cell.place i).Through R d xs ys

/-- The steps keep the ids. -/
def KeepsId (R : List String → α → α → Prop) : Prop :=
  ∀ {d x y}, R d x y → Entity.id y = Entity.id x

theorem atFirst_silent : Silent (AtFirst id R) := by
  rintro xs ys ⟨i, -, h⟩
  exact Cell.through_silent h

theorem place?_map : Collection.place? xs id = (xs.map Entity.id).findIdx? (·.same id) := by
  rw [Collection.place?, List.findIdx?_map]
  rfl

/-- A step at one place keeps the place of every id. -/
theorem place?_through (hR : KeepsId R) (h : (Cell.place i).Through R d xs ys) (id : Value) :
    Collection.place? ys id = Collection.place? xs id := by
  obtain ⟨x, y, hx, hy, rfl⟩ := h
  obtain ⟨hi, rfl⟩ := List.getElem?_eq_some_iff.mp hx
  have hids : ((Cell.place i).store d xs y).map Entity.id = xs.map Entity.id := by
    unfold Cell.store
    split
    case isTrue => rfl
    case isFalse =>
      have hset : xs.map Entity.id = (xs.map Entity.id).set i (Entity.id y) := by
        rw [hR hy, ← List.getElem_map Entity.id (h := by simpa using hi), List.set_getElem_self]
      rw [hset, ← List.map_set]
      rfl
  rw [place?_map, place?_map, hids]

theorem comp_atFirst_iff (hR : KeepsId R) :
    Relation.Comp (AtFirst id R d) (AtFirst id' S e) xs ys ↔
      ∃ i j, Collection.place? xs id = some i ∧ Collection.place? xs id' = some j ∧
        Relation.Comp ((Cell.place i).Through R d) ((Cell.place j).Through S e) xs ys := by
  constructor
  · rintro ⟨zs, ⟨i, hi, hzs⟩, j, hj, hys⟩
    exact ⟨i, j, hi, (place?_through hR hzs id').symm.trans hj, zs, hzs, hys⟩
  · rintro ⟨i, j, hi, hj, zs, hzs, hys⟩
    exact ⟨zs, ⟨i, hi, hzs⟩, j, (place?_through hR hzs id').trans hj, hys⟩

/-- Steps of the first items with two ids commute if these are two items, or if they commute at
the one that it is. -/
theorem atFirst_commuteAt (hR : KeepsId R) (hS : KeepsId S) (hR' : Silent R) (hS' : Silent S)
    (h : ∀ i x, Collection.place? xs id = some i → Collection.place? xs id' = some i →
      xs[i]? = some x → CommuteAt (R d) (S e) x) :
    CommuteAt (AtFirst id R d) (AtFirst id' S e) xs := by
  have hplaces {i j : Nat} (hi : Collection.place? xs id = some i)
      (hj : Collection.place? xs id' = some j) :
      CommuteAt ((Cell.place i).Through R d) ((Cell.place j).Through S e) xs := by
    by_cases hij : i = j
    · subst hij
      exact Cell.commuteAt hR' hS' fun x hx => h i x hi hj hx
    · exact (Cell.place_apart hij).commuteAt
  refine ⟨fun ys => ?_, ?_⟩
  · rw [comp_atFirst_iff hR, comp_atFirst_iff hS]
    constructor
    · rintro ⟨i, j, hi, hj, hcomp⟩
      exact ⟨j, i, hj, hi, ((hplaces hi hj).comp_iff ys).mp hcomp⟩
    · rintro ⟨j, i, hj, hi, hcomp⟩
      exact ⟨i, j, hi, hj, ((hplaces hi hj).comp_iff ys).mpr hcomp⟩
  · rintro ⟨ys, i, hi, hys⟩ ⟨zs, j, hj, hzs⟩
    obtain ⟨ws, hws⟩ := (hplaces hi hj).joins ⟨ys, hys⟩ ⟨zs, hzs⟩
    exact ⟨ws, (comp_atFirst_iff hR).mpr ⟨i, j, hi, hj, hws⟩⟩

end First

/-! ## Runs of steps that may fail -/

section Fold
variable {ε σ α β : Type} {f : σ → α → Except ε σ} {g : σ → β → Except ε σ} {xs : List α}
  {ys : List β}

/-- The states before and after a step that may fail. -/
def Does (f : σ → Except ε σ) (s t : σ) : Prop := f s = .ok t

theorem does_pure : Does (ε := ε) (.ok : σ → Except ε σ) = Eq := by
  funext s t
  simp [Does]

/-- One step after the other, as one answer. -/
theorem comp_does_iff {p q : σ → Except ε σ} {s t : σ} :
    Relation.Comp (Does p) (Does q) s t ↔
      ((p s).toOption.bind fun m => (q m).toOption) = some t := by
  simp only [Relation.Comp, Does, Option.bind_eq_some_iff, toOption_eq_some]

theorem does_foldlM_cons {x : α} :
    Does (fun s => (x :: xs).foldlM f s) =
      Relation.Comp (Does (f · x)) (Does fun s => xs.foldlM f s) := by
  funext s t
  rw [Does, List.foldlM_cons, bind_eq_ok]
  rfl

/-- A relation that commutes with every step of a run commutes with the run. -/
theorem comp_foldlM {R : σ → σ → Prop}
    (h : ∀ x ∈ xs, Relation.Comp R (Does (f · x)) = Relation.Comp (Does (f · x)) R) :
    Relation.Comp R (Does fun s => xs.foldlM f s) =
      Relation.Comp (Does fun s => xs.foldlM f s) R := by
  induction xs with
  | nil =>
      rw [show Does (fun s => [].foldlM f s) = Eq from does_pure]
      exact Relation.comp_eq.trans Relation.eq_comp.symm
  | cons x xs ih =>
      have hx := h x List.mem_cons_self
      have hxs := ih fun y hy => h y (List.mem_cons_of_mem _ hy)
      rw [does_foldlM_cons, ← Relation.comp_assoc, hx, Relation.comp_assoc, hxs,
        Relation.comp_assoc]

/-- Runs commute if their steps do. -/
theorem foldlM_comm (h : ∀ x ∈ xs, ∀ y ∈ ys,
      Relation.Comp (Does (f · x)) (Does (g · y)) = Relation.Comp (Does (g · y)) (Does (f · x))) :
    Relation.Comp (Does fun s => xs.foldlM f s) (Does fun s => ys.foldlM g s) =
      Relation.Comp (Does fun s => ys.foldlM g s) (Does fun s => xs.foldlM f s) :=
  comp_foldlM fun y hy => (comp_foldlM fun x hx => (h x hx y hy).symm).symm

/-- A run whose steps fail or not whatever the state fails or not whatever the state. -/
theorem exists_foldlM (h : ∀ x ∈ xs, ∀ s s', (∃ t, f s x = .ok t) → ∃ t, f s' x = .ok t) {s : σ}
    (hrun : ∃ t, xs.foldlM f s = .ok t) (s' : σ) : ∃ t, xs.foldlM f s' = .ok t := by
  induction xs generalizing s s' with
  | nil => exact ⟨s', rfl⟩
  | cons x xs ih =>
      obtain ⟨t, ht⟩ := hrun
      rw [List.foldlM_cons, bind_eq_ok] at ht
      obtain ⟨m, hm, ht⟩ := ht
      obtain ⟨m', hm'⟩ := h x List.mem_cons_self s s' ⟨m, hm⟩
      obtain ⟨t', ht'⟩ := ih (fun y hy => h y (List.mem_cons_of_mem _ hy)) ⟨t, ht⟩ m'
      exact ⟨t', by rw [List.foldlM_cons, hm']; exact ht'⟩

end Fold

end Montage
