/-
# Finite numbers

A value is `Finite` if no number in it, at any depth, is an infinity or `nan`.

Half of what is finite is finite, and the way there does not leave the floats either
(`isFinite_floatFloorDiv_two`).  Rounding to a float is monotone, so a magnitude that is
not above one that has a form is not rounded above it (`round_within`); the steps of a
floor division by two stay below the forms of the table, in units of `2 ^ 2094`:

    x - x mod 2           16     below the first magnitude that is no float
    half of it             8
    down to the quotient  12     one less, if the remainder has another sign
    its floor             14
    up to the quotient    15     one more, if it was off

So an element in the middle of a canvas has a finite place exactly if the room that its
size leaves is finite (`finite_middle_iff`).
-/
import Montage.Proofs.Each
import Montage.Proofs.Unbounded

namespace Montage

/-! ## Magnitudes -/

namespace Binary64

variable {x y : Binary64} {B C : Nat}

/-- A finite number of at most so many units. -/
def Within (B : Nat) (x : Binary64) : Prop := x.isFinite = true ∧ x.units ≤ B

/-- Some finite number has so many units. -/
def Form (B : Nat) : Prop := ∃ m p, Canonical m p ∧ B = m * 2 ^ p

theorem Within.mono (h : x.Within B) (hB : B ≤ C) : x.Within C := ⟨h.1, h.2.trans hB⟩

theorem form_units (hx : x.isFinite = true) : Form x.units := by
  cases x with
  | finite n m p hc => exact ⟨m, p, hc, rfl⟩
  | _ => cases hx

theorem Form.lt (h : Form B) : B < 2 ^ 2098 := by
  obtain ⟨m, p, ⟨hm, hp, hle⟩, rfl⟩ := h
  exact (finite_iff hm hp).mp hle

theorem Form.nearest (h : Form B) : nearest B 1 = B := by
  obtain ⟨m, p, hc, rfl⟩ := h
  unfold Binary64.nearest
  rw [scale_of_canonical hc, Nat.one_mul, divToEven_mul m (by positivity)]

/-- Nothing is rounded above a magnitude that has a form. -/
theorem Form.nearest_le {a d : Nat} (hB : Form B) (hd : 0 < d) (h : a ≤ B * d) :
    Binary64.nearest a d ≤ B := by
  have hmono := nearest_mono hd Nat.one_pos (show a * 1 ≤ B * d by omega)
  rwa [hB.nearest] at hmono

theorem round_within {a d : Nat} (n : Bool) (hB : Form B) (hd : 0 < d) (h : a ≤ B * d) :
    (round n a d).Within B := by
  have hnearest := hB.nearest_le hd h
  obtain ⟨m, p, hc, hround, hunits⟩ := round_of_lt n (hnearest.trans_lt hB.lt)
  rw [hround]
  refine ⟨rfl, ?_⟩
  show m * 2 ^ p ≤ B
  rwa [hunits]

theorem natAbs_signedUnits (x : Binary64) : x.signedUnits.natAbs = x.units := by
  unfold signedUnits
  split <;> omega

theorem add_within (hB : Form B) (hx : x.isFinite = true) (hy : y.isFinite = true)
    (h : (x.signedUnits + y.signedUnits).natAbs ≤ B) : (x.add y).Within B := by
  cases x with
  | finite =>
      cases y with
      | finite =>
          unfold add
          dsimp only
          split
          · exact ⟨rfl, by simp [zero, units]⟩
          · exact round_within _ hB Nat.one_pos (by omega)
      | _ => cases hy
  | _ => cases hx

theorem isFinite_neg (hy : y.isFinite = true) : y.neg.isFinite = true := by
  cases y with
  | finite => rfl
  | _ => cases hy

theorem signedUnits_neg (hy : y.isFinite = true) : y.neg.signedUnits = -y.signedUnits := by
  cases y with
  | finite n =>
      unfold neg signedUnits isNegative units
      cases n <;> simp
  | _ => cases hy

theorem sub_within (hB : Form B) (hx : x.isFinite = true) (hy : y.isFinite = true)
    (h : (x.signedUnits - y.signedUnits).natAbs ≤ B) : (x.sub y).Within B := by
  refine add_within hB hx (isFinite_neg hy) ?_
  rwa [signedUnits_neg hy]

theorem div_eq_round (hx : x.isFinite = true) (hy : y.isFinite = true) (hzero : y.isZero = false) :
    x.div y = round (x.isNegative != y.isNegative) (x.units * one) y.units := by
  cases x with
  | finite =>
      cases y with
      | finite => exact if_neg (Bool.eq_false_iff.mp hzero)
      | _ => cases hy
  | _ => cases hx

theorem units_pos (hy : y.isFinite = true) (hzero : y.isZero = false) : 0 < y.units := by
  cases y with
  | finite n m p hc =>
      have hm : 0 < m := Nat.pos_of_ne_zero (by simpa [isZero] using hzero)
      exact Nat.mul_pos hm (Nat.two_pow_pos p)
  | _ => cases hy

theorem div_within (hB : Form B) (hx : x.isFinite = true) (hy : y.isFinite = true)
    (hzero : y.isZero = false) (h : x.units * one ≤ B * y.units) : (x.div y).Within B := by
  rw [div_eq_round hx hy hzero]
  exact round_within _ hB (units_pos hy hzero) h

theorem ofInt_within {n : Int} (hB : Form B) (h : n.natAbs * one ≤ B) : (ofInt n).Within B :=
  round_within _ hB Nat.one_pos (by omega)

/-! ## Halves -/

/-- Two. -/
abbrev two : Binary64 := ofInt 2

theorem two_spec : two.isFinite = true ∧ two.isZero = false ∧ two.units = 2 * one := by
  decide +kernel

theorem one_spec : (ofInt 1).isFinite = true ∧ (ofInt 1).units = one := by decide +kernel

theorem remainder_eq_round (hx : x.isFinite = true) (hy : y.isFinite = true)
    (hzero : y.isZero = false) : x.remainder y = round x.isNegative (x.units % y.units) 1 := by
  cases x with
  | finite =>
      cases y with
      | finite => exact if_neg (Bool.eq_false_iff.mp hzero)
      | _ => cases hy
  | _ => cases hx

/-- A remainder by two has the sign of the number, and is not above it. -/
theorem remainder_two (hx : x.isFinite = true) :
    (x.remainder two).Within x.units ∧ (x.remainder two).isNegative = x.isNegative := by
  obtain ⟨hfinite, hzero, -⟩ := two_spec
  rw [remainder_eq_round hx hfinite hzero]
  refine ⟨round_within _ (form_units hx) Nat.one_pos ?_, isNegative_round _ _ 1⟩
  exact (Nat.mod_le _ _).trans (Nat.mul_one _).ge

/-- Taking the remainder off does not lead away from zero. -/
theorem sub_remainder (hx : x.isFinite = true) : (x.sub (x.remainder two)).Within x.units := by
  obtain ⟨⟨hfinite, hle⟩, hsign⟩ := remainder_two hx
  refine sub_within (form_units hx) hx hfinite ?_
  unfold signedUnits
  rw [hsign]
  split <;> omega

/-- A sixteenth of the first magnitude that is no float. -/
def sixteenth : Nat := 2 ^ 49 * 2 ^ 2045

theorem form_sixteenths {k : Nat} (hlow : 8 ≤ k) (hhigh : k < 16) : Form (k * sixteenth) := by
  refine ⟨k * 2 ^ 49, 2045, ⟨?_, .inl ?_, le_rfl⟩, (Nat.mul_assoc _ _ _).symm⟩
  · show k * 2 ^ 49 < 2 ^ 53
    omega
  · show 2 ^ 52 ≤ k * 2 ^ 49
    omega

theorem two_pow_le {p q : Nat} (h : p ≤ q) : Nat.pow 2 p ≤ 2 ^ q :=
  Nat.pow_le_pow_right (by decide) h

theorem two_pow_le_mul {p q k : Nat} (h : p ≤ q) (hk : 0 < k) : Nat.pow 2 p ≤ k * 2 ^ q :=
  (two_pow_le h).trans (Nat.le_mul_of_pos_left _ hk)

theorem one_le : one ≤ sixteenth := by
  unfold one sixteenth
  apply two_pow_le_mul
  · decide
  · decide

theorem units_lt (hx : x.isFinite = true) : x.units < 16 * sixteenth := by
  obtain ⟨m, p, ⟨hm, -, hp⟩, hunits⟩ := form_units hx
  have hm : m < 2 ^ 53 := hm
  have hlt := Nat.mul_lt_mul_of_pos_right hm (Nat.two_pow_pos p)
  have hle := two_pow_le hp
  rw [Nat.pow_eq] at hle
  unfold sixteenth
  generalize 2 ^ 2045 = top at hle ⊢
  omega

/-- Rounding down leads away from zero by one at most. -/
theorem natAbs_mul_one_le_of_floor {n : Int} {q : Binary64} (hn : q.floor? = some n) :
    n.natAbs * one ≤ q.units + one := by
  unfold floor? at hn
  split at hn
  · cases hn
    have hone := one_pos
    have hmul := Int.mul_ediv_add_emod q.signedUnits one
    have hmod := Int.emod_nonneg q.signedUnits (by omega : (one : Int) ≠ 0)
    have hlt := Int.emod_lt_of_pos q.signedUnits (by omega : (0 : Int) < one)
    have habs := natAbs_signedUnits q
    have hprod : (q.signedUnits / (one : Int)).natAbs * one =
        ((one : Int) * (q.signedUnits / one)).natAbs := by
      rw [Int.natAbs_mul, Int.natAbs_natCast, Nat.mul_comm]
    omega
  · cases hn

theorem floor_within {n : Int} {q : Binary64} (hB : Form B) (hn : q.floor? = some n)
    (h : q.units + one ≤ B) : (ofInt n).Within B :=
  ofInt_within hB ((natAbs_mul_one_le_of_floor hn).trans h)

/-- Half of a finite number, rounded down, is finite. -/
theorem isFinite_floatFloorDiv_two (hx : x.isFinite = true) :
    (Number.floatFloorDiv x two).isFinite = true := by
  have hone := one_le
  have hlt := units_lt hx
  have hform {k : Nat} (hlow : 8 ≤ k) (hhigh : k < 16) := form_sixteenths hlow hhigh
  generalize sixteenth = U at hone hlt hform
  obtain ⟨hfinite, hunits⟩ := one_spec
  have habs := natAbs_signedUnits (ofInt 1)
  have hhalf : ((x.sub (x.remainder two)).div two).Within (8 * U) := by
    obtain ⟨htwo, hzero, hunits⟩ := two_spec
    obtain ⟨hdifference, hle⟩ := sub_remainder hx
    refine div_within (hform (by decide) (by decide)) hdifference htwo hzero ?_
    rw [hunits]
    calc (x.sub (x.remainder two)).units * one ≤ 16 * U * one :=
          Nat.mul_le_mul_right one (hle.trans hlt.le)
      _ = 8 * U * (2 * one) := by ring
  have hless : ∀ q : Binary64, q.Within (8 * U) → (q.sub (ofInt 1)).Within (12 * U) := by
    rintro q ⟨hq, hle⟩
    have hqabs := natAbs_signedUnits q
    exact sub_within (hform (by decide) (by decide)) hq hfinite (by omega)
  have hmore : ∀ q : Binary64, q.Within (14 * U) → (q.add (ofInt 1)).Within (15 * U) := by
    rintro q ⟨hq, hle⟩
    have hqabs := natAbs_signedUnits q
    exact add_within (hform (by decide) (by decide)) hq hfinite (by omega)
  have hquotient : ∀ b : Bool, (if b = true then ((x.sub (x.remainder two)).div two).sub (ofInt 1)
      else (x.sub (x.remainder two)).div two).Within (12 * U) := by
    intro b
    split
    · exact hless _ hhalf
    · exact hhalf.mono (by omega)
  unfold Number.floatFloorDiv
  extract_lets r half q
  have hq : q.Within (12 * U) := hquotient _
  clear_value q
  split
  · rfl
  split
  · exact hq.1
  · rename_i n hn
    have hfloor : (ofInt n).Within (14 * U) :=
      floor_within (hform (by decide) (by decide)) hn (by have hle := hq.2; omega)
    dsimp only
    split
    · exact (hmore _ hfloor).1
    · exact hfloor.1

/-- What is not finite has no finite half. -/
theorem floatFloorDiv_two_eq_false (hx : x.isFinite = false) :
    (Number.floatFloorDiv x two).isFinite = false := by
  have hhalf : ((x.sub (x.remainder two)).div two).isFinite = false :=
    isFinite_div (isFinite_add hx)
  have hzero {q : Binary64} (hq : q.isFinite = false) : q.isZero = false := by
    cases q with
    | finite => cases hq
    | _ => rfl
  unfold Number.floatFloorDiv
  extract_lets r half q
  have hq : q = half := by
    have hnan : r.isNaN = true := by
      rw [show r = nan from remainder_eq_nan hx]
      rfl
    exact if_neg (by simp [hnan])
  rw [hq, hzero hhalf, show half.floor? = none from if_neg (by simp [hhalf, half, r])]
  exact hhalf

theorem isFinite_floatFloorDiv_two_iff :
    (Number.floatFloorDiv x two).isFinite = true ↔ x.isFinite = true := by
  refine ⟨fun h => ?_, isFinite_floatFloorDiv_two⟩
  by_contra hx
  rw [floatFloorDiv_two_eq_false (by simpa using hx)] at h
  cases h

end Binary64

theorem Number.floorDiv_float_int {x : Binary64} {n : Int} {b : Number}
    (h : (float x).floorDiv (.int n) = .ok b) :
    b = .float (floatFloorDiv x (Binary64.ofInt n)) := by
  unfold floorDiv at h
  obtain ⟨_, hx, h⟩ := bind_eq_ok.mp h
  obtain ⟨y, hy, h⟩ := bind_eq_ok.mp h
  cases hx
  obtain ⟨rfl, -⟩ := toFloat_int hy
  obtain ⟨-, h⟩ := guard_eq_ok.mp h
  exact (pure_eq_ok.mp h).symm

/-! ## Finite values -/

/-- No number in the value, at any depth, is an infinity or `nan`. -/
inductive Value.Finite : Value → Prop
  | null : Finite .null
  | bool (b : Bool) : Finite (.bool b)
  | int (n : Int) : Finite (.int n)
  | float {x : Binary64} : x.isFinite = true → Finite (.float x)
  | text (s : String) : Finite (.text s)
  | bytes (bs : List UInt8) : Finite (.bytes bs)
  | list {items : List Value} : (∀ v ∈ items, Finite v) → Finite (.list items)
  | object {fields : List (String × Value)} :
      (∀ f ∈ fields, Finite f.2) → Finite (.object fields)

namespace Value

theorem Finite.hereditary : Hereditary Finite where
  null := .null
  bool := .bool
  int := .int
  float := .float
  text := .text
  list := ⟨fun | .list h => h, .list⟩
  object _ := .object
  entries := fun | .object h => h
  filter _ := fun | .object h => .object fun f hf => h f (List.mem_filter.mp hf).1

theorem finite_float {x : Binary64} : (float x).Finite ↔ x.isFinite = true :=
  ⟨fun | .float h => h, .float⟩

mutual

/-- Whether all numbers in a value are finite. -/
def isFinite : Value → Bool
  | float x => x.isFinite
  | list items => allFinite items
  | object fields => allFieldsFinite fields
  | _ => true

/-- Whether all numbers in the items are finite. -/
def allFinite : List Value → Bool
  | [] => true
  | v :: r => isFinite v && allFinite r

/-- Whether all numbers in the values of the entries are finite. -/
def allFieldsFinite : List (String × Value) → Bool
  | [] => true
  | (_, v) :: r => isFinite v && allFieldsFinite r

end

theorem allFinite_iff {items : List Value} :
    allFinite items = true ↔ ∀ v ∈ items, v.isFinite = true := by
  induction items with
  | nil => exact ⟨fun _ => nofun, fun _ => rfl⟩
  | cons v r ih => rw [allFinite, Bool.and_eq_true, List.forall_mem_cons, ih]

theorem allFieldsFinite_iff {fields : List (String × Value)} :
    allFieldsFinite fields = true ↔ ∀ f ∈ fields, f.2.isFinite = true := by
  induction fields with
  | nil => exact ⟨fun _ => nofun, fun _ => rfl⟩
  | cons f r ih => rw [allFieldsFinite, Bool.and_eq_true, List.forall_mem_cons, ih]

theorem isFinite_iff (v : Value) : v.isFinite = true ↔ v.Finite := by
  induction v using Value.induction with
  | null => exact ⟨fun _ => .null, fun _ => rfl⟩
  | bool b => exact ⟨fun _ => .bool b, fun _ => rfl⟩
  | int n => exact ⟨fun _ => .int n, fun _ => rfl⟩
  | float x => exact finite_float.symm
  | text s => exact ⟨fun _ => .text s, fun _ => rfl⟩
  | bytes bs => exact ⟨fun _ => .bytes bs, fun _ => rfl⟩
  | list items ih =>
      rw [isFinite, allFinite_iff, Finite.hereditary.list]
      exact forall₂_congr ih
  | object fields ih =>
      rw [isFinite, allFieldsFinite_iff, forall₂_congr ih]
      exact ⟨.object, Finite.hereditary.entries⟩

instance (v : Value) : Decidable v.Finite := decidable_of_iff _ v.isFinite_iff

end Value

/-! ## The middle of a canvas -/

namespace Elements

/-- The distance from the edge at which something of a size is in the middle. -/
def middle (canvas : Int) (size : Value) : Except Fault Value := do
  let room ← (Number.int canvas).sub (← size.toNumber)
  return .ofNumber (← room.floorDiv (.int 2))

theorem centered_iff {c : Composition} {width height : Value} {e f : Element} :
    centered c width height e = .ok f ↔ ∃ left top, middle c.width width = .ok left ∧
      middle c.height height = .ok top ∧ f = { e with left, top, width, height } := by
  have hcentered : centered c width height e = (do
      let left ← middle c.width width
      let top ← middle c.height height
      return { e with left, top, width, height }) := rfl
  rw [hcentered]
  simp only [bind_eq_ok, pure_eq_ok]
  constructor
  · rintro ⟨left, hleft, top, htop, rfl⟩
    exact ⟨left, top, hleft, htop, rfl⟩
  · rintro ⟨left, top, hleft, htop, rfl⟩
    exact ⟨left, hleft, top, htop, rfl⟩

/-- The room that a size leaves on a canvas is beyond the range of floats. -/
def RoomOverflows (canvas : Int) (size : Value) : Prop :=
  ∃ a x, size.number? = some a ∧ (Number.int canvas).sub a = .ok (.float x) ∧ x.isFinite = false

/-- A size puts something at a finite distance, unless the room that it leaves overflows. -/
theorem finite_middle_iff {canvas : Int} {size v : Value} (h : middle canvas size = .ok v) :
    v.Finite ↔ ¬ RoomOverflows canvas size := by
  unfold middle at h
  simp only [bind_eq_ok, pure_eq_ok, Value.toNumber_eq_ok] at h
  obtain ⟨a, ha, room, hroom, b, hb, rfl⟩ := h
  have hoverflows : RoomOverflows canvas size ↔ ∃ x, room = .float x ∧ x.isFinite = false := by
    constructor
    · rintro ⟨a', x, ha', hx, hinfinite⟩
      cases ha.symm.trans ha'
      cases hroom.symm.trans hx
      exact ⟨x, rfl, hinfinite⟩
    · rintro ⟨x, rfl, hinfinite⟩
      exact ⟨a, x, ha, hroom, hinfinite⟩
  rw [hoverflows]
  cases room with
  | int n =>
      cases hb
      exact ⟨fun _ => nofun, fun _ => .int _⟩
  | float x =>
      obtain rfl := Number.floorDiv_float_int hb
      rw [show Value.ofNumber _ = .float _ from rfl, Value.finite_float,
        Binary64.isFinite_floatFloorDiv_two_iff]
      simp

end Elements

end Montage
