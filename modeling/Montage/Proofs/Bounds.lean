/-
# Bounds

A value is within bounds when it stands for a number that compares with them:
`AtLeast`, `Above` and `Between`.  `nan` compares with nothing, so it is within no
bounds.

The first part says that two numbers other than `nan` do compare, and that rounding
keeps their order.  The second part reads the converters of the options backwards:
which values can a converter have answered?  No decimal text is read as `nan`, so
passing the test of a converter puts the value within its bounds.
-/
import Montage.Proofs.Peel
import Montage.Proofs.Rounding
import Montage.Command.Settings

namespace Montage

/-! ## The order of numbers -/

namespace Binary64

theorem compare?_swap (x y : Binary64) : y.compare? x = (x.compare? y).map Ordering.swap := by
  cases x with
  | nan => cases y <;> rfl
  | infinite a =>
      cases y with
      | nan => rfl
      | infinite b => cases a <;> cases b <;> rfl
      | finite => cases a <;> rfl
  | finite =>
      cases y with
      | nan => rfl
      | infinite b => cases b <;> rfl
      | finite => exact congrArg some Std.OrientedCmp.eq_swap

theorem compare?_isSome {x y : Binary64} (hx : x ≠ nan) (hy : y ≠ nan) :
    ∃ o, x.compare? y = some o := by
  cases x with
  | nan => exact absurd rfl hx
  | infinite a => cases y with
    | nan => exact absurd rfl hy
    | _ => exact ⟨_, rfl⟩
  | finite => cases y with
    | nan => exact absurd rfl hy
    | _ => exact ⟨_, rfl⟩

theorem build_ne_nan (n : Bool) (m p : Nat) : build n m p ≠ nan := by
  unfold build
  split <;> exact nofun

theorem round_ne_nan (n : Bool) (a d : Nat) : round n a d ≠ nan := by
  rw [round_def]
  split <;> exact build_ne_nan _ _ _

theorem ofDecimal_ne_nan (n : Bool) (digits : Nat) (exponent : Int) :
    ofDecimal n digits exponent ≠ nan := by
  unfold ofDecimal
  split_ifs
  · exact nofun
  · exact nofun
  · exact nofun
  · exact round_ne_nan _ _ _
  · exact round_ne_nan _ _ _

end Binary64

namespace Number

theorem float_le_of_not_lt {x y : Binary64} (hx : x ≠ .nan) (hy : y ≠ .nan)
    (h : (float x).lt (float y) = false) : (float y).le (float x) = true := by
  obtain ⟨o, ho⟩ := Binary64.compare?_isSome hx hy
  have hswap := Binary64.compare?_swap x y
  rw [ho] at hswap
  unfold le lt same at *
  simp only [compare?, ho, hswap, Option.map_some] at h ⊢
  cases o with
  | lt => cases h
  | eq | gt => rfl

theorem int_lt {a b : Int} : (int a).lt (int b) = true ↔ a < b := by
  unfold lt compare?
  rw [beq_iff_eq, Option.some.injEq, Int.compare_eq_lt]

theorem int_le {a b : Int} : (int a).le (int b) = true ↔ a ≤ b := by
  unfold le
  rw [Bool.or_eq_true, int_lt]
  unfold same compare?
  rw [beq_iff_eq, Option.some.injEq, Int.compare_eq_eq]
  omega

end Number

namespace Binary64

variable {a d a' d' : Nat}

/-- Rounding keeps the order of fractions. -/
theorem round_le_round (hd : 0 < d) (hd' : 0 < d') (h : a * d' ≤ a' * d) :
    (Number.float (round false a d)).le (.float (round false a' d')) = true := by
  have hnearest := nearest_mono hd hd' h
  unfold Number.le Number.lt Number.same Number.compare?
  by_cases hfinite' : nearest a' d' < 2 ^ 2098
  · obtain ⟨m, p, hc, hround, hm⟩ := round_of_lt false (hnearest.trans_lt hfinite')
    obtain ⟨m', p', hc', hround', hm'⟩ := round_of_lt false hfinite'
    have hcompare : (finite false m p hc).compare? (finite false m' p' hc') =
        some (compare ((m * 2 ^ p : Nat) : Int) (m' * 2 ^ p' : Nat)) := rfl
    rw [hround, hround']
    dsimp only
    rw [hcompare, hm, hm']
    rcases hnearest.lt_or_eq with hlt | heq
    · rw [Int.compare_eq_lt.mpr (Int.ofNat_lt.mpr hlt)]
      rfl
    · rw [Int.compare_eq_eq.mpr (congrArg Nat.cast heq)]
      rfl
  · rw [round_of_le false (Nat.not_lt.mp hfinite')]
    by_cases hfinite : nearest a d < 2 ^ 2098
    · obtain ⟨m, p, hc, hround, -⟩ := round_of_lt false hfinite
      rw [hround]
      rfl
    · rw [round_of_le false (Nat.not_lt.mp hfinite)]
      rfl

end Binary64

theorem Binary64.isFinite_one : (Binary64.ofInt 1).isFinite = true := by decide +kernel

/-! ## Values within bounds -/

namespace Value

/-- A number that is not smaller than the bound. -/
def AtLeast (low : Number) (v : Value) : Prop := ∃ a, v.number? = some a ∧ low.le a = true

/-- A number that is greater than the bound. -/
def Above (low : Number) (v : Value) : Prop := ∃ a, v.number? = some a ∧ low.lt a = true

/-- A number that is neither smaller than the first bound nor greater than the second one. -/
def Between (low high : Number) (v : Value) : Prop :=
  ∃ a, v.number? = some a ∧ low.le a = true ∧ a.le high = true

theorem atLeast_int {low n : Int} (h : low ≤ n) : (int n).AtLeast (.int low) :=
  ⟨_, rfl, Number.int_le.mpr h⟩

theorem above_int {low n : Int} (h : low < n) : (int n).Above (.int low) :=
  ⟨_, rfl, Number.int_lt.mpr h⟩

/-- A float between two finite ones is finite. -/
theorem isFinite_of_between {low high x : Binary64} (hlow : low.isFinite = true)
    (hhigh : high.isFinite = true) (h : (float x).Between (.float low) (.float high)) :
    x.isFinite = true := by
  obtain ⟨_, ⟨⟩, hle, hge⟩ := h
  cases low with
  | finite =>
      cases high with
      | finite =>
          cases x with
          | finite => rfl
          | nan => cases hle
          | infinite n =>
              cases n with
              | true => cases hle
              | false => cases hge
      | _ => cases hhigh
  | _ => cases hlow

end Value

/-! ## What the converters answer -/

namespace Converter

variable {raw : String} {fps : Number} {v : Value}

theorem float?_ne_nan {x : Binary64} (h : float? raw = some x) : x ≠ .nan := by
  unfold float? at h
  obtain ⟨_, -, rfl⟩ := Option.map_eq_some_iff.mp h
  exact Binary64.ofDecimal_ne_nan _ _ _

theorem duration_eq_ok (h : duration raw fps = .ok v) : ∃ n : Int, v = .int n ∧ 0 ≤ n := by
  obtain ⟨_ | n, -, h⟩ := bind_eq_ok.mp h
  · cases h
  · obtain ⟨hn, h⟩ := guard_eq_ok.mp h
    cases h
    exact ⟨n, rfl, by omega⟩

theorem positiveDuration_eq_ok (h : positiveDuration raw fps = .ok v) :
    ∃ n : Int, v = .int n ∧ 0 < n := by
  obtain ⟨_ | n, -, h⟩ := bind_eq_ok.mp h
  · cases h
  · obtain ⟨hn, h⟩ := guard_eq_ok.mp h
    cases h
    exact ⟨n, rfl, by omega⟩

theorem positiveWhole_eq_ok (h : positiveWhole raw fps = .ok v) :
    ∃ n : Int, v = .int n ∧ 0 < n := by
  obtain ⟨n, -, h⟩ := bind_eq_ok.mp h
  obtain ⟨hn, h⟩ := guard_eq_ok.mp h
  cases h
  exact ⟨n, rfl, by omega⟩

theorem wholeBetween_eq_ok {low high : Int}
    (h : wholeBetween (.int low) (.int high) raw fps = .ok v) :
    ∃ n, v = .int n ∧ low ≤ n ∧ n ≤ high := by
  obtain ⟨n, -, h⟩ := bind_eq_ok.mp h
  obtain ⟨hn, h⟩ := guard_eq_ok.mp h
  cases h
  rw [Bool.or_eq_true, Number.int_lt, Number.int_lt] at hn
  exact ⟨n, rfl, by omega⟩

theorem positiveNumber_eq_ok (h : positiveNumber raw fps = .ok v) : v.Above (.int 0) := by
  obtain ⟨x, -, h⟩ := bind_eq_ok.mp h
  split at h
  · rename_i hx
    cases h
    refine ⟨.float x, rfl, ?_⟩
    have hcompare : (Number.int 0).compare? (.float x) = (x.compareInt? 0).map Ordering.swap := rfl
    rw [Number.lt, hcompare, hx]
    rfl
  · cases h

theorem numberBetween_eq_ok {low high : Binary64} (hlow : low ≠ .nan) (hhigh : high ≠ .nan)
    (h : numberBetween (.float low) (.float high) raw fps = .ok v) :
    v.Between (.float low) (.float high) := by
  unfold numberBetween at h
  split at h
  · obtain ⟨_, -, h⟩ := bind_eq_ok.mp h
    cases h
  · rename_i x hx
    split at h
    · obtain ⟨_, -, h⟩ := bind_eq_ok.mp h
      cases h
    · rename_i hbounds
      cases h
      rw [Bool.or_eq_true, not_or, Bool.not_eq_true, Bool.not_eq_true] at hbounds
      have hnan := float?_ne_nan hx
      exact ⟨.float x, rfl, Number.float_le_of_not_lt hnan hlow hbounds.1,
        Number.float_le_of_not_lt hhigh hnan hbounds.2⟩

/-- A converter of numbers between two ratios answers with such a number. -/
theorem between_ratio {n d n' d' : Nat}
    (h : numberBetween (ratio n d) (ratio n' d') raw fps = .ok v) :
    v.Between (ratio n d) (ratio n' d') :=
  numberBetween_eq_ok (Binary64.round_ne_nan _ _ _) (Binary64.round_ne_nan _ _ _) h

end Converter

/-! ## Zoom levels -/

namespace Settings

theorem requirePercentage_ne_nan {args : Arguments} {x : Binary64}
    (h : requirePercentage args = .ok x) : x ≠ .nan := by
  unfold requirePercentage at h
  split at h
  · cases h
  split at h
  · rename_i hpercentage
    cases h
    unfold percentage? at hpercentage
    split at hpercentage
    · cases hpercentage
    · rename_i hread
      obtain ⟨-, hx⟩ := Option.ite_none_right_eq_some.mp hpercentage
      cases hx
      exact Converter.float?_ne_nan hread
  · cases h

theorem zoomPercent_units : ∃ m p hc m' p' hc',
    Limits.zoomPercent = (.finite false m p hc, .finite false m' p' hc') ∧
      m * 2 ^ p = 10 * Binary64.one ∧ m' * 2 ^ p' = 1000 * Binary64.one := by
  refine ⟨10 * 2 ^ 49, 1025, by decide, 1000 * 2 ^ 43, 1031, by decide, ?_, ?_, ?_⟩ <;>
    decide +kernel

theorem clampPercentage_units {x : Binary64} (hx : x ≠ .nan) :
    ∃ m p hc, clampPercentage x = .finite false m p hc ∧
      10 * Binary64.one ≤ m * 2 ^ p ∧ m * 2 ^ p ≤ 1000 * Binary64.one := by
  obtain ⟨m, p, hc, m', p', hc', hlimits, hlow, hhigh⟩ := zoomPercent_units
  have hlimit (k : Nat) : 10 * k ≤ 1000 * k := by omega
  unfold clampPercentage
  rw [hlimits]
  dsimp only
  split
  · exact ⟨m, p, hc, rfl, hlow.ge, hlow.le.trans (hlimit _)⟩
  rename_i hnotBelow
  split
  · exact ⟨m', p', hc', rfl, (hlimit _).trans hhigh.ge, hhigh.le⟩
  rename_i hnotAbove
  cases x with
  | nan => exact absurd rfl hx
  | infinite n => cases n <;> contradiction
  | finite n k e hk =>
      have hge : (m * 2 ^ p : Nat) ≤ (Binary64.finite n k e hk).signedUnits := by
        by_contra hlt
        exact hnotBelow (congrArg some (Int.compare_eq_lt.mpr (not_le.mp hlt)))
      have hle : (Binary64.finite n k e hk).signedUnits ≤ (m' * 2 ^ p' : Nat) := by
        by_contra hgt
        exact hnotAbove (congrArg some (Int.compare_eq_gt.mpr (not_le.mp hgt)))
      rw [hlow] at hge
      rw [hhigh] at hle
      cases n with
      | true =>
          have hnegative : (Binary64.finite true k e hk).signedUnits = -(k * 2 ^ e : Nat) := rfl
          have hone := Binary64.one_pos
          omega
      | false => exact ⟨k, e, hk, rfl, Int.ofNat_le.mp hge, Int.ofNat_le.mp hle⟩

/-- The level of a percentage is between a tenth and ten. -/
theorem level_between {x : Binary64} (hx : x ≠ .nan) :
    (Value.float ((clampPercentage x).div (Binary64.ofInt 100))).Between
      (Converter.ratio 1 10) (Converter.ratio 10 1) := by
  obtain ⟨m, p, hc, hclamp, hlow, hhigh⟩ := clampPercentage_units hx
  obtain ⟨m', p', hc', hhundred, hzero, hunits⟩ : ∃ m' p' hc',
      Binary64.ofInt 100 = .finite false m' p' hc' ∧ (m' == 0) = false ∧
        m' * 2 ^ p' = 100 * Binary64.one :=
    ⟨100 * 2 ^ 46, 1028, by decide, by decide +kernel, by decide, by decide +kernel⟩
  have hdiv : (clampPercentage x).div (Binary64.ofInt 100) =
      Binary64.round false (m * 2 ^ p * Binary64.one) (100 * Binary64.one) := by
    rw [hclamp, hhundred, ← hunits]
    exact if_neg (Bool.eq_false_iff.mp hzero)
  have hone := Binary64.one_pos
  rw [hdiv]
  refine ⟨_, rfl, Binary64.round_le_round ?_ ?_ ?_, Binary64.round_le_round ?_ ?_ ?_⟩
  · norm_num
  · omega
  · calc 1 * Binary64.one * (100 * Binary64.one)
        = 10 * Binary64.one * (Binary64.one * 10) := by ring
      _ ≤ m * 2 ^ p * (Binary64.one * 10) := Nat.mul_le_mul_right _ hlow
      _ = m * 2 ^ p * Binary64.one * 10 := (Nat.mul_assoc _ _ _).symm
  · omega
  · norm_num
  · calc m * 2 ^ p * Binary64.one * 1 = m * 2 ^ p * Binary64.one := Nat.mul_one _
      _ ≤ 1000 * Binary64.one * Binary64.one := Nat.mul_le_mul_right _ hhigh
      _ = 10 * Binary64.one * (100 * Binary64.one) := by ring

end Settings

end Montage
