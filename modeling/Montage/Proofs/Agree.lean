/-
# Values that agree

`v.Agree w` says that two values do not differ, numbers compared by value: a whole
number agrees with a float of its value, and an object with one that has the same keys
with agreeing values, whatever their order.  Every value agrees with itself, `nan` and a
list that holds it included.  So what does not agree is not the same either
(`agree_of_same`), and to deny an agreement says more than to deny sameness.
-/
import Mathlib.Data.List.Perm.Subperm
import Montage.Proofs.Codec
import Montage.Proofs.Definite

namespace Montage

namespace Value

/-- The values are equal, but perhaps for the kind of a number and for the order of entries. -/
inductive Agree : Value → Value → Prop
  | refl (v : Value) : Agree v v
  | number {v w : Value} {a b : Number} :
      v.number? = some a → w.number? = some b → a.same b = true → Agree v w
  | list {xs ys : List Value} :
      xs.length = ys.length →
      (∀ (i : Nat) (v w : Value), xs[i]? = some v → ys[i]? = some w → Agree v w) →
      Agree (.list xs) (.list ys)
  | object {fs gs : List (String × Value)} :
      (∀ k, (fs.lookup k).isSome = (gs.lookup k).isSome) →
      (∀ k v w, fs.lookup k = some v → gs.lookup k = some w → Agree v w) →
      Agree (.object fs) (.object gs)

namespace Agree

variable {v w : Value} {xs ys : List Value} {fs gs : List (String × Value)}

theorem length (h : Agree (.list xs) (.list ys)) : xs.length = ys.length := by
  cases h with
  | refl => rfl
  | number hx _ _ => cases hx
  | list hlength _ => exact hlength

theorem item (h : Agree (.list xs) (.list ys)) {i : Nat} (hx : xs[i]? = some v)
    (hy : ys[i]? = some w) : Agree v w := by
  cases h with
  | refl =>
      cases hx.symm.trans hy
      exact .refl v
  | number hx _ _ => cases hx
  | list _ hitems => exact hitems i v w hx hy

theorem entry (h : Agree (.object fs) (.object gs)) (key : String) :
    Agree (Value.entry fs key) (Value.entry gs key) := by
  cases h with
  | refl => exact .refl _
  | number hx _ _ => cases hx
  | object hkeys hentries =>
      have hkey := hkeys key
      unfold Value.entry
      cases hf : fs.lookup key with
      | none =>
          rw [hf, Option.isSome_none, eq_comm, Option.isSome_eq_false_iff,
            Option.isNone_iff_eq_none] at hkey
          rw [hkey]
          exact .refl _
      | some v =>
          rw [hf, Option.isSome_some, eq_comm] at hkey
          obtain ⟨w, hw⟩ := Option.isSome_iff_exists.mp hkey
          rw [hw]
          exact hentries key v w hf hw

end Agree

/-! ## Agreeing and being the same -/

theorem same_of_number {v w : Value} {a b : Number} (hv : v.number? = some a)
    (hw : w.number? = some b) : v.same w = a.same b := by
  cases v <;> cases hv <;> cases w <;> cases hw <;> rfl

theorem Definite.same_self {v : Value} (h : v.Definite) : v.same v = true := by
  have hint : ∀ n : Int, (Number.int n).same (.int n) = true := by
    intro n
    simp [Number.same, Number.compare?]
  cases h with
  | bool b => exact hint _
  | int n => exact hint n
  | text s => exact beq_self_eq_true s
  | @float x hx =>
      cases x with
      | nan => exact absurd rfl hx
      | infinite n => cases n <;> rfl
      | finite n m p hc =>
          simp [same, sameScalar, number?, Number.same, Number.compare?, Binary64.compare?]

/-- What agrees with a definite value is the same. -/
theorem Agree.same {v w : Value} (h : Agree v w) (hw : w.Definite) : v.same w = true := by
  cases h with
  | refl => exact hw.same_self
  | number hv hw hsame => exact (same_of_number hv hw).trans hsame
  | list | object => cases hw

theorem IsText.definite {v : Value} (h : v.IsText) : v.Definite := by
  obtain ⟨s, rfl⟩ := h
  exact .text s

theorem Agree.eq_of_isText {v w : Value} (h : Agree v w) (hw : w.IsText) : v = w :=
  hw.same_iff.mp (h.same hw.definite)

theorem Agree.eq_of_isText' {v w : Value} (h : Agree v w) (hv : v.IsText) : v = w := by
  obtain ⟨s, rfl⟩ := hv
  cases h with
  | refl => rfl
  | number hv _ _ => cases hv

theorem Agree.eq_of_int {m n : Int} (h : Agree (.int m) (.int n)) : m = n := by
  have hsame : (Number.int m).same (.int n) = true := h.same (.int n)
  simpa [Number.same, Number.compare?] using hsame

theorem sameItems_iff {xs ys : List Value} : sameItems xs ys = true ↔
    xs.length = ys.length ∧
      ∀ (i : Nat) (v w : Value), xs[i]? = some v → ys[i]? = some w → v.same w = true := by
  induction xs generalizing ys with
  | nil => cases ys <;> simp [sameItems]
  | cons x xs ih =>
      cases ys with
      | nil => simp [sameItems]
      | cons y ys =>
          rw [sameItems, Bool.and_eq_true, ih]
          constructor
          · rintro ⟨hxy, hlength, hrest⟩
            refine ⟨congrArg (· + 1) hlength, fun i v w hv hw => ?_⟩
            cases i with
            | zero =>
                cases hv
                cases hw
                exact hxy
            | succ i => exact hrest i v w hv hw
          · rintro ⟨hlength, hitems⟩
            exact ⟨hitems 0 x y rfl rfl, Nat.succ.inj hlength, fun i => hitems (i + 1)⟩

theorem sameFields_iff {fs gs : List (String × Value)} : sameFields fs gs = true ↔
    ∀ f ∈ fs, ∃ w, gs.lookup f.1 = some w ∧ f.2.same w = true := by
  induction fs with
  | nil => simp [sameFields]
  | cons f fs ih =>
      obtain ⟨k, v⟩ := f
      rw [sameFields, Bool.and_eq_true, ih, List.forall_mem_cons]
      refine and_congr_left fun _ => ?_
      cases gs.lookup k <;> simp

theorem lookup_isSome_iff {fs : List (String × Value)} {k : String} :
    (fs.lookup k).isSome = true ↔ k ∈ fs.map Prod.fst := by
  constructor
  · intro h
    obtain ⟨v, hv⟩ := Option.isSome_iff_exists.mp h
    exact List.mem_map.mpr ⟨_, mem_of_lookup hv, rfl⟩
  · intro h
    by_contra hnone
    rw [Bool.not_eq_true, Option.isSome_eq_false_iff, Option.isNone_iff_eq_none,
      List.lookup_eq_none_iff] at hnone
    obtain ⟨f, hf, rfl⟩ := List.mem_map.mp h
    exact absurd (hnone f hf) (by simp)

/-- What is the same agrees, if every object has each of its keys once. -/
theorem agree_of_same {v w : Value} (hv : v.Keyed) (hw : w.Keyed) (h : v.same w = true) :
    Agree v w := by
  induction hv generalizing w with
  | null => cases w <;> first | exact .refl _ | cases h
  | text s =>
      rw [text_same_iff] at h
      exact h ▸ .refl _
  | bytes bs =>
      cases w with
      | bytes cs =>
          have heq : bs = cs := by simpa [same, sameScalar] using h
          exact heq ▸ .refl _
      | _ => cases h
  | bool | int | float =>
      cases w with
      | bool | int | float => exact .number rfl rfl ((same_of_number rfl rfl).symm.trans h)
      | _ => cases h
  | @list xs _ ih =>
      cases hw with
      | @list ys hys =>
          obtain ⟨hlength, hitems⟩ := sameItems_iff.mp h
          refine .list hlength fun i v w hx hy => ?_
          exact ih v (List.mem_of_getElem? hx) (hys w (List.mem_of_getElem? hy))
            (hitems i v w hx hy)
      | _ => cases h
  | @object fs hfs _ ih =>
      cases hw with
      | @object gs _ hgs =>
          have hboth : (fs.length == gs.length && sameFields fs gs) = true := h
          rw [Bool.and_eq_true, beq_iff_eq, sameFields_iff] at hboth
          obtain ⟨hlength, hfields⟩ := hboth
          -- the keys of the one are among those of the other, which has no more entries
          have hsub : fs.map Prod.fst ⊆ gs.map Prod.fst := by
            intro k hk
            obtain ⟨f, hf, rfl⟩ := List.mem_map.mp hk
            obtain ⟨w, hw, -⟩ := hfields f hf
            exact List.mem_map.mpr ⟨_, mem_of_lookup hw, rfl⟩
          have hperm : (fs.map Prod.fst).Perm (gs.map Prod.fst) :=
            (List.subperm_of_subset hfs hsub).perm_of_length_le
              (by rw [List.length_map, List.length_map, hlength])
          refine .object (fun k => ?_) fun k v w hx hy => ?_
          · rw [Bool.eq_iff_iff, lookup_isSome_iff, lookup_isSome_iff, hperm.mem_iff]
          · obtain ⟨w', hy', hsame⟩ := hfields (k, v) (mem_of_lookup hx)
            cases hy.symm.trans hy'
            exact ih (k, v) (mem_of_lookup hx) (hgs (k, w) (mem_of_lookup hy)) hsame
      | _ => cases h

end Value

/-! ## What documents tell -/

section Tells
variable {α : Type} [Entity α] {K : α → Prop} {write : α → Value} {f : Entity.Field α}

/-- If the documents of two entities agree, so do their values of the field, and it is this value
that a new one is compared with. -/
structure Tells (K : α → Prop) (write : α → Value) (f : Entity.Field α) : Prop where
  agree : ∀ x y, K x → K y → (write x).Agree (write y) → (Entity.get x f).Agree (Entity.get y f)
  holds : ∀ (x : α) (v : Value), Entity.holds x f v = (Entity.get x f).same v

/-- A field is told whose value stands under a key. -/
theorem Tells.of_entry (entries : α → List (String × Value)) (key : String)
    (hwrite : ∀ x, K x → write x = .object (entries x))
    (hentry : ∀ x, K x → Value.entry (entries x) key = Entity.get x f)
    (hholds : ∀ (x : α) (v : Value), Entity.holds x f v = (Entity.get x f).same v) :
    Tells K write f where
  agree x y hx hy h := by
    rw [hwrite x hx, hwrite y hy] at h
    rw [← hentry x hx, ← hentry y hy]
    exact h.entry key
  holds := hholds

end Tells

namespace Document

theorem tells_audio (f : Entity.Field Audio) : Tells (fun _ => True) ofAudio f :=
  .of_entry _ (Entity.key f) (fun _ _ => rfl) (fun _ _ => by cases f <;> rfl) fun _ _ => rfl

theorem tells_note (f : Entity.Field Note) : Tells (fun _ => True) ofNote f := by
  refine .of_entry _ (Entity.key f) (fun _ _ => rfl) (fun n _ => ?_) fun _ _ => rfl
  cases f with
  | updatedAt => exact entry_ifPresent _ n.updatedAt
  | _ => rfl

theorem tells_page {f : Entity.Field Page} (hf : f ≠ Page.Field.elements) :
    Tells (fun _ => True) ofPage f := by
  refine .of_entry _ (Entity.key f) (fun _ _ => rfl) (fun p _ => ?_) fun _ _ => ?_
  · obtain ⟨id, name, duration, color, elements, noElements⟩ := p
    cases f with
    | elements => exact absurd rfl hf
    | backgroundColor => cases color <;> rfl
    | _ => rfl
  · cases f with
    | elements => exact absurd rfl hf
    | _ => rfl

theorem tells_element {f : Element.Field} (hf : f ∈ Element.Field.id :: Element.Field.keyed) :
    Tells Element.KeepsExtra ofElement (f : Entity.Field Element) := by
  refine .of_entry (fun e => elementEntries e ++ e.extra.entries) f.key ?_ ?_ ?_
  · rintro e ⟨entries, hbeside, hextra⟩
    rw [ofElement_eq hbeside hextra, hextra]
  · rintro e ⟨entries, hbeside, hextra⟩
    rw [hextra]
    rcases List.mem_cons.mp hf with rfl | hf
    · rfl
    · exact entry_beside hbeside hf
  · intro e v
    cases f with
    | kind => exact absurd hf (by decide)
    | _ => rfl

end Document

end Montage
