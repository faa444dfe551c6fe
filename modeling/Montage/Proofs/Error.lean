/-
# Rounding errors

Each operation on floats rounds its exact result once, and so misses it by `2 ^ -53` of the
result, or by half a unit where the result is small (`nearest_error`).

`Near x q e` says that `x` is a number that is not negative and at most `e` away from `q`.  What
is computed from near numbers is near as well.  It has the errors that it was computed from, and
one more for its own rounding, `slack B` for a result of at most `B`:

    x + y        e + e' + slack B
    x * y        e * q' + slack B          if y is q' exactly
    x / y        e / q' + slack B          if y is q' exactly
    a half up    an integer at most 1 / 2 + e + slack B away
-/
import Montage.Proofs.Overlong

namespace Montage

namespace Binary64

variable {x y : Binary64} {a d k : Nat} {p q e e' B : ℚ}

/-! ## One rounding -/

theorem divToEven_bounds (hd : 0 < d) :
    2 * a ≤ 2 * (divToEven a d * d) + d ∧ 2 * (divToEven a d * d) ≤ 2 * a + d := by
  have hsplit := Nat.div_add_mod' a d
  have hmod := Nat.mod_lt a hd
  unfold divToEven
  dsimp only
  split_ifs <;> (try rw [Nat.add_mul]) <;> omega

/-- A quotient is missed by a half at most. -/
theorem divToEven_error (hd : 0 < d) : |(divToEven a d : ℚ) - a / d| ≤ 1 / 2 := by
  obtain ⟨hlow, hhigh⟩ := divToEven_bounds (a := a) hd
  have hlow' : (2 : ℚ) * a ≤ 2 * (divToEven a d * d) + d := by exact_mod_cast hlow
  have hhigh' : (2 : ℚ) * (divToEven a d * d) ≤ 2 * a + d := by exact_mod_cast hhigh
  have hd' : (0 : ℚ) < d := by exact_mod_cast hd
  have hupper : (a : ℚ) / d ≤ divToEven a d + 1 / 2 := by
    rw [div_le_iff₀ hd']
    linarith
  have hlower : (divToEven a d : ℚ) - 1 / 2 ≤ a / d := by
    rw [le_div_iff₀ hd']
    linarith
  rw [abs_le]
  constructor <;> linarith

/-- The last digit that is kept of a fraction counts `2 ^ -52` of it at most, or a unit. -/
theorem two_pow_scale_le (hd : 0 < d) : (2 : ℚ) ^ scale a d ≤ a / d / 2 ^ 52 + 1 := by
  have hd' : (0 : ℚ) < d := by exact_mod_cast hd
  by_cases hzero : scale a d = 0
  · have hnonneg : (0 : ℚ) ≤ a / d / 2 ^ 52 := by positivity
    rw [hzero, pow_zero]
    linarith
  · have hle : 2 ^ 52 * (d * 2 ^ scale a d) ≤ a :=
      (Nat.le_div_iff_mul_le (by positivity)).mp (le_div_scale hzero)
    have hle' : (2 : ℚ) ^ 52 * (d * 2 ^ scale a d) ≤ a := by exact_mod_cast hle
    have hscale : (2 : ℚ) ^ scale a d ≤ a / d / 2 ^ 52 := by
      rw [le_div_iff₀ (by positivity), le_div_iff₀ hd']
      linarith
    linarith

/-- A fraction is missed by `2 ^ -53` of it at most, or by half a unit. -/
theorem nearest_error (hd : 0 < d) :
    |(nearest a d : ℚ) - a / d| ≤ (a / d / 2 ^ 52 + 1) / 2 := by
  have hpow : (0 : ℚ) < 2 ^ scale a d := by positivity
  have hdigits := divToEven_error (a := a) (d := d * 2 ^ scale a d) (by positivity)
  have hunits : (nearest a d : ℚ) - a / d =
      ((divToEven a (d * 2 ^ scale a d) : ℚ) - a / (d * 2 ^ scale a d : ℕ)) * 2 ^ scale a d := by
    unfold nearest
    push_cast
    field_simp
  calc |(nearest a d : ℚ) - a / d|
      = |(divToEven a (d * 2 ^ scale a d) : ℚ) - a / (d * 2 ^ scale a d : ℕ)| *
          2 ^ scale a d := by rw [hunits, abs_mul, abs_of_pos hpow]
    _ ≤ 1 / 2 * 2 ^ scale a d := mul_le_mul_of_nonneg_right hdigits hpow.le
    _ ≤ (a / d / 2 ^ 52 + 1) / 2 := by linarith [two_pow_scale_le (a := a) hd]

/-! ## Near numbers -/

/-- The magnitude of a finite number. -/
def magnitude (x : Binary64) : ℚ := x.units / one

/-- The number is not negative, and at most `e` away from `q`. -/
structure Near (x : Binary64) (q e : ℚ) : Prop where
  finite : x.isFinite = true
  sign : x.isNegative = false
  close : |x.magnitude - q| ≤ e

/-- What a result of at most `B` is missed by. -/
def slack (B : ℚ) : ℚ := (B + 1) / 2 ^ 53

theorem magnitude_nonneg (x : Binary64) : 0 ≤ x.magnitude := by
  unfold magnitude
  positivity

theorem Near.magnitude_le (h : Near x q e) : x.magnitude ≤ q + e := by
  linarith [(abs_le.mp h.close).2]

theorem Near.exact (h : Near x q 0) : x.magnitude = q := by
  have hzero : |x.magnitude - q| = 0 := le_antisymm h.close (abs_nonneg _)
  linarith [abs_eq_zero.mp hzero]

theorem Near.mono (h : Near x q e) (he : e ≤ e') : Near x q e' :=
  ⟨h.finite, h.sign, h.close.trans he⟩

/-- A number near to one that is near. -/
theorem Near.trans (h : Near x p e) (hpq : |p - q| ≤ e') : Near x q (e + e') where
  finite := h.finite
  sign := h.sign
  close := (abs_sub_le _ p _).trans (add_le_add h.close hpq)

theorem cast_one_pos : (0 : ℚ) < one := by exact_mod_cast one_pos

theorem two_pow_le_one : (2 : ℚ) ^ 52 ≤ one := by
  have hpow (k : Nat) (hk : 52 ≤ k) : (2 : ℚ) ^ 52 ≤ (Nat.pow 2 k : ℕ) := by
    exact_mod_cast Nat.pow_le_pow_right (by decide) hk
  unfold one
  apply hpow
  decide

theorem form_limit : Form (2 ^ 64 * one) := ⟨2 ^ 52, 1086, by decide +kernel⟩

/-- A fraction of at most `2 ^ 64` is rounded to a number near to it. -/
theorem near_round (hd : 0 < d) (hq : (a : ℚ) / d = q * one) (hB : q ≤ B) (hlimit : B ≤ 2 ^ 64) :
    Near (round false a d) q (slack B) := by
  have hd' : (0 : ℚ) < d := by exact_mod_cast hd
  have hone := cast_one_pos
  have hle : a ≤ 2 ^ 64 * one * d := by
    have hle' : (a : ℚ) ≤ 2 ^ 64 * one * d := by
      rw [← div_le_iff₀ hd', hq]
      exact mul_le_mul_of_nonneg_right (hB.trans hlimit) hone.le
    exact_mod_cast hle'
  obtain ⟨m, p, hc, hround, hunits⟩ :=
    round_of_lt false ((form_limit.nearest_le hd hle).trans_lt form_limit.lt)
  have herror := nearest_error (a := a) hd
  rw [← hunits, hq] at herror
  rw [hround]
  refine ⟨rfl, rfl, ?_⟩
  have hmagnitude : (finite false m p hc).magnitude - q =
      (((m * 2 ^ p : ℕ) : ℚ) - q * one) / one := by
    rw [sub_div, mul_div_cancel_right₀ q hone.ne']
    rfl
  calc |(finite false m p hc).magnitude - q|
      = |((m * 2 ^ p : ℕ) : ℚ) - q * one| / one := by
        rw [hmagnitude, abs_div, abs_of_pos hone]
    _ ≤ (q * one / 2 ^ 52 + 1) / 2 / one := div_le_div_of_nonneg_right herror hone.le
    _ ≤ slack B := by
        unfold slack
        rw [div_le_iff₀ hone]
        have hmul : q * one ≤ B * one := mul_le_mul_of_nonneg_right hB hone.le
        linarith [two_pow_le_one]

/-! ## Operations -/

theorem near_ofRatio (hd : 0 < d) (hB : (a : ℚ) / d ≤ B) (hlimit : B ≤ 2 ^ 64) :
    Near (ofRatio false a d) (a / d) (slack B) := by
  refine near_round hd ?_ hB hlimit
  push_cast
  ring

theorem eq_two_pow {j e u : ℕ} (h : 2 ^ j * u = 2 ^ (j + e)) : u = 2 ^ e := by
  rw [Nat.pow_add] at h
  exact Nat.eq_of_mul_eq_mul_left (Nat.two_pow_pos j) h

theorem one_eq : one = 2 ^ 1074 := eq_two_pow (two_pow_mul_one 0)

/-- A significand has a form with any exponent that leaves room to fill it up with zeros. -/
theorem form_two_pow {e : ℕ} (hk : k < 2 ^ 53) (hlow : 52 ≤ e) (hhigh : e ≤ 2045) :
    Form (k * 2 ^ e) := by
  by_cases hzero : k = 0
  · exact ⟨0, 0, by decide, by rw [hzero, Nat.zero_mul, Nat.zero_mul]⟩
  have hlog : Nat.log2 k ≤ 52 := Nat.le_of_lt_succ ((Nat.log2_lt hzero).mpr hk)
  have hfull : 2 ^ 52 ≤ k * 2 ^ (52 - Nat.log2 k) := by
    calc 2 ^ 52 = 2 ^ Nat.log2 k * 2 ^ (52 - Nat.log2 k) := by
          rw [← Nat.pow_add, Nat.add_sub_cancel' hlog]
      _ ≤ k * 2 ^ (52 - Nat.log2 k) := Nat.mul_le_mul_right _ (Nat.log2_self_le hzero)
  have hfits : k * 2 ^ (52 - Nat.log2 k) < 2 ^ 53 := by
    have hexp : Nat.log2 k + 1 + (52 - Nat.log2 k) = 53 := by omega
    calc k * 2 ^ (52 - Nat.log2 k)
        < 2 ^ (Nat.log2 k + 1) * 2 ^ (52 - Nat.log2 k) :=
          Nat.mul_lt_mul_of_pos_right Nat.lt_log2_self (by positivity)
      _ = 2 ^ 53 := by rw [← Nat.pow_add, hexp]
  have hexp : 52 - Nat.log2 k + (e - (52 - Nat.log2 k)) = e := by omega
  refine ⟨_, e - (52 - Nat.log2 k), ⟨hfits, .inl hfull, by omega⟩, ?_⟩
  rw [Nat.mul_assoc, ← Nat.pow_add, hexp]

/-- An integer below `2 ^ 53` has a form. -/
theorem form_nat (hk : k < 2 ^ 53) : Form (k * one) := by
  rw [one_eq]
  exact form_two_pow hk (by decide) (by decide)

/-- An integer below `2 ^ 53` is a float exactly. -/
theorem exact_ofInt (hk : k < 2 ^ 53) : Near (ofInt k) k 0 := by
  obtain ⟨m, p, hc, hunits⟩ := form_nat hk
  have hround : ofInt k = finite false m p hc := by
    have hsign : decide ((k : Int) < 0) = false := by simp
    rw [ofInt, ofRatio, hsign, Int.natAbs_natCast, hunits, round_units hc]
  have hmagnitude : (finite false m p hc).magnitude = k := by
    have hdiv : ((m * 2 ^ p : ℕ) : ℚ) / one = k := by
      rw [← hunits, Nat.cast_mul, mul_div_cancel_right₀ _ cast_one_pos.ne']
    exact hdiv
  rw [hround]
  exact ⟨rfl, rfl, by rw [hmagnitude, sub_self, abs_zero]⟩

theorem magnitude_mul_one (x : Binary64) : x.magnitude * one = x.units :=
  div_mul_cancel₀ _ cast_one_pos.ne'

theorem add_eq_round (hx : x.isFinite = true) (hy : y.isFinite = true)
    (hxsign : x.isNegative = false) (hysign : y.isNegative = false) :
    x.add y = round false (x.units + y.units) 1 := by
  have hsum : x.signedUnits + y.signedUnits = ((x.units + y.units : ℕ) : Int) := by
    rw [signedUnits, signedUnits, hxsign, hysign, Nat.cast_add]
    rfl
  generalize hu : x.units + y.units = u at hsum ⊢
  cases x with
  | finite =>
      cases y with
      | finite =>
          unfold Binary64.add
          dsimp only
          rw [hsum, hxsign]
          split
          · rename_i hzero
            have hu : u = 0 := by exact_mod_cast hzero
            rw [hu, round_zero false 1 Nat.one_pos]
            rfl
          · have hsign : decide ((u : Int) < 0) = false := by simp
            rw [hsign, Int.natAbs_natCast]
      | _ => cases hy
  | _ => cases hx

/-- A sum with a number that is exact. -/
theorem Near.add (hx : Near x p e) (hy : Near y q 0) (hB : p + e + q ≤ B) (hlimit : B ≤ 2 ^ 64) :
    Near (x.add y) (p + q) (slack B + e) := by
  have hnear : Near (x.add y) (x.magnitude + q) (slack B) := by
    rw [add_eq_round hx.finite hy.finite hx.sign hy.sign]
    refine near_round Nat.one_pos ?_ (by linarith [hx.magnitude_le]) hlimit
    rw [add_mul, magnitude_mul_one, ← hy.exact, magnitude_mul_one]
    push_cast
    ring
  exact hnear.trans (by rw [add_sub_add_right_eq_sub]; exact hx.close)

/-- A product with a number that is exact. -/
theorem Near.mul (hx : Near x p e) (hy : Near y q 0) (hB : (p + e) * q ≤ B)
    (hlimit : B ≤ 2 ^ 64) : Near (x.mul y) (p * q) (slack B + e * q) := by
  have hq : 0 ≤ q := hy.exact ▸ magnitude_nonneg y
  have hround : x.mul y = round false (x.units * y.units) one := by
    have hxfinite := hx.finite
    have hyfinite := hy.finite
    have hsign : (x.isNegative != y.isNegative) = false := by rw [hx.sign, hy.sign]; rfl
    cases x with
    | finite =>
        cases y with
        | finite =>
            unfold Binary64.mul
            dsimp only
            rw [hsign]
        | _ => cases hyfinite
    | _ => cases hxfinite
  have hnear : Near (x.mul y) (x.magnitude * q) (slack B) := by
    rw [hround]
    refine near_round one_pos ?_
      ((mul_le_mul_of_nonneg_right hx.magnitude_le hq).trans hB) hlimit
    rw [← hy.exact, Nat.cast_mul, ← magnitude_mul_one x, ← magnitude_mul_one y, ← mul_assoc,
      mul_div_cancel_right₀ _ cast_one_pos.ne', mul_right_comm]
  refine hnear.trans ?_
  rw [← sub_mul, abs_mul, abs_of_nonneg hq]
  exact mul_le_mul_of_nonneg_right hx.close hq

/-- A quotient by a number that is exact. -/
theorem Near.div (hx : Near x p e) (hy : Near y q 0) (hq : 0 < q) (hB : (p + e) / q ≤ B)
    (hlimit : B ≤ 2 ^ 64) : Near (x.div y) (p / q) (slack B + e / q) := by
  have hunits : 0 < y.units := by
    have hpos : (0 : ℚ) < y.units := by
      rw [← magnitude_mul_one, hy.exact]
      exact mul_pos hq cast_one_pos
    exact_mod_cast hpos
  have hzero : y.isZero = false := by
    cases y with
    | finite n m k hc =>
        have hm : m ≠ 0 := by
          rintro rfl
          simp [units] at hunits
        simpa [isZero] using hm
    | _ => rfl
  have hround : x.div y = round false (x.units * one) y.units := by
    have hsign : (x.isNegative != y.isNegative) = false := by rw [hx.sign, hy.sign]; rfl
    rw [div_eq_round hx.finite hy.finite hzero, hsign]
  have hnear : Near (x.div y) (x.magnitude / q) (slack B) := by
    rw [hround]
    refine near_round hunits ?_
      ((div_le_div_of_nonneg_right hx.magnitude_le hq.le).trans hB) hlimit
    rw [← hy.exact, Nat.cast_mul, ← magnitude_mul_one x, ← magnitude_mul_one y,
      mul_div_mul_right _ _ cast_one_pos.ne', mul_div_right_comm]
  refine hnear.trans ?_
  rw [← sub_div, abs_div, abs_of_pos hq]
  exact div_le_div_of_nonneg_right hx.close hq.le

theorem floor_eq (hx : x.isFinite = true) (hsign : x.isNegative = false) :
    Number.floor x = .ok ((x.units / one : ℕ) : Int) := by
  unfold Number.floor Number.integerPart floor? signedUnits
  rw [if_pos hx, hsign]
  rfl

/-- The greatest integer not above a near number. -/
theorem Near.floor (h : Near x q e) :
    ∃ n : ℕ, Number.floor x = .ok n ∧ (n : ℚ) ≤ q + e ∧ q - e < n + 1 := by
  have hclose := abs_le.mp h.close
  refine ⟨x.units / one, floor_eq h.finite h.sign, ?_, ?_⟩
  · have hle : ((x.units / one : ℕ) : ℚ) ≤ x.magnitude := Nat.cast_div_le
    linarith
  · have hlt : x.magnitude < (x.units / one : ℕ) + 1 := by
      rw [magnitude, div_lt_iff₀ cast_one_pos]
      have hnat : x.units < (x.units / one + 1) * one := by
        rw [Nat.add_mul, Nat.one_mul]
        exact Nat.lt_div_mul_add one_pos
      exact_mod_cast hnat
    linarith

/-! ## Rounding half up -/

theorem half_units : Duration.half.units * 2 = one := by decide +kernel

theorem isNegative_half : Duration.half.isNegative = false := by decide +kernel

theorem exact_half : Near Duration.half (1 / 2) 0 := by
  have hunits' : (Duration.half.units : ℚ) * 2 = one := by exact_mod_cast half_units
  have hmagnitude : Duration.half.magnitude = 1 / 2 := by
    rw [magnitude, div_eq_iff cast_one_pos.ne', ← hunits']
    ring
  exact ⟨isFinite_half, isNegative_half, by rw [hmagnitude, sub_self, abs_zero]⟩

/-- Two integers that are less than one apart are the same. -/
theorem eq_of_close {m n : ℕ} (h : |(m : ℚ) - n| < 1) : m = n := by
  have hint : |(m : ℤ) - n| < 1 := by exact_mod_cast h
  exact_mod_cast sub_eq_zero.mp (Int.abs_lt_one_iff.mp hint)

/-- A near number is rounded to an integer that is not much more than a half away. -/
theorem Near.roundHalfUp (h : Near x q e) (hB : q + e + 1 / 2 ≤ B) (hlimit : B ≤ 2 ^ 64) :
    ∃ n : ℕ, Duration.roundHalfUp (.float x) = .ok n ∧ |(n : ℚ) - q| ≤ 1 / 2 + (slack B + e) := by
  obtain ⟨n, hfloor, hle, hlt⟩ := (h.add exact_half hB hlimit).floor
  refine ⟨n, hfloor, ?_⟩
  rw [abs_le]
  constructor <;> linarith

/-- A number is rounded to the integer that it is near enough to. -/
theorem Near.roundHalfUp_eq {n : ℕ} (h : Near x q e) (hB : q + e + 1 / 2 ≤ B)
    (hlimit : B ≤ 2 ^ 64) (hn : |q - n| + (slack B + e) < 1 / 2) :
    Duration.roundHalfUp (.float x) = .ok n := by
  obtain ⟨k, hround, hk⟩ := h.roundHalfUp hB hlimit
  have hclose : |(k : ℚ) - n| < 1 := by
    calc |(k : ℚ) - n| ≤ |(k : ℚ) - q| + |q - n| := abs_sub_le _ _ _
      _ < 1 := by linarith
  rw [hround, eq_of_close hclose]

end Binary64

/-! ## Numbers -/

namespace Number

open Binary64 (Near slack)

variable {x : Binary64} {a k : ℕ} {p e B : ℚ}

theorem near_div (hk : 0 < k) (hB : (a : ℚ) / k ≤ B) (hlimit : B ≤ 2 ^ 64) :
    ∃ y, (int a).div (int k) = .ok y ∧ Near y (a / k) (slack B) := by
  have hnear := Binary64.near_ofRatio hk hB hlimit
  have hsign (n : ℕ) : decide ((n : Int) < 0) = false := by simp
  have hratio : Binary64.ofRatio (decide ((a : Int) < 0) != decide ((k : Int) < 0))
      (a : Int).natAbs (k : Int).natAbs = .ofRatio false a k := by
    rw [hsign, hsign, bne_self_eq_false, Int.natAbs_natCast, Int.natAbs_natCast]
  have hdiv := int_div_int (a := a) (b := k) (by exact_mod_cast hk.ne') (hratio ▸ hnear.finite)
  exact ⟨_, hdiv, hratio ▸ hnear⟩

theorem near_float_mul (h : Near x p e) (hk : k < 2 ^ 53) (hB : (p + e) * k ≤ B)
    (hlimit : B ≤ 2 ^ 64) :
    ∃ y, (float x).mul (int k) = .ok (float y) ∧ Near y (p * k) (slack B + e * k) :=
  ⟨_, float_mul_int (Binary64.exact_ofInt hk).finite,
    h.mul (Binary64.exact_ofInt hk) hB hlimit⟩

theorem near_float_div (h : Near x p e) (hk : k < 2 ^ 53) (hpos : 0 < k) (hB : (p + e) / k ≤ B)
    (hlimit : B ≤ 2 ^ 64) :
    ∃ y, (float x).div (int k) = .ok y ∧ Near y (p / k) (slack B + e / k) := by
  have hexact := Binary64.exact_ofInt hk
  have hone : (1 : Int) ≤ k := by exact_mod_cast hpos
  exact ⟨_, float_div_int hexact.finite (Binary64.isZero_ofInt hone),
    h.div hexact (by exact_mod_cast hpos) hB hlimit⟩

end Number

end Montage
