/-
# Rounding

`round n a d` is decided by one natural number, the fraction `a / d` rounded to a
number of units that 53 binary digits can write:

    nearest a d = divToEven a (d * 2 ^ q) * 2 ^ q      q = log2 (a / d) - 52

Below `2 ^ 2098` units the result is the finite number of that magnitude, and from
there on an infinity (`round_of_lt`, `round_of_le`).  Three laws follow: the fraction
alone counts, not how it is written (`round_scale`); a magnitude that has a form is
rounded to itself (`round_units`); and a larger fraction is not rounded to a smaller
number (`nearest_mono`).
-/
import Mathlib.Tactic
import Montage.Binary64.Decimal

namespace Montage.Binary64

theorem one_pos : 0 < one := by
  have hpos (k : Nat) : 0 < Nat.pow 2 k := Nat.two_pow_pos k
  unfold one
  apply hpos

/-! ## Division to the nearest -/

variable {a d a' d' k : Nat}

theorem divToEven_scale (hk : 0 < k) : divToEven (a * k) (d * k) = divToEven a d := by
  have hmod : a * k % (d * k) = a % d * k := Nat.mul_mod_mul_right k a d
  have hdouble : 2 * (a % d * k) = 2 * (a % d) * k := (Nat.mul_assoc _ _ _).symm
  unfold divToEven
  dsimp only
  rw [Nat.mul_div_mul_right a d hk, hmod, hdouble]
  simp only [Nat.mul_lt_mul_right hk]

theorem divToEven_mul (m : Nat) (hd : 0 < d) : divToEven (m * d) d = m := by
  unfold divToEven
  simp [Nat.mul_div_cancel m hd, hd]

theorem div_le_divToEven (a d : Nat) : a / d ≤ divToEven a d := by
  unfold divToEven
  dsimp only
  split_ifs <;> omega

theorem divToEven_le (a d : Nat) : divToEven a d ≤ a / d + 1 := by
  unfold divToEven
  dsimp only
  split_ifs <;> omega

theorem div_le_div_of_cross (hd : 0 < d) (hd' : 0 < d') (h : a * d' ≤ a' * d) :
    a / d ≤ a' / d' := by
  rw [Nat.le_div_iff_mul_le hd']
  have hcancel : a / d * d' * d ≤ a' * d :=
    calc a / d * d' * d = a / d * d * d' := Nat.mul_right_comm _ _ _
      _ ≤ a * d' := Nat.mul_le_mul_right _ (Nat.div_mul_le_self a d)
      _ ≤ a' * d := h
  exact Nat.le_of_mul_le_mul_right hcancel hd

theorem divToEven_mono (hd : 0 < d) (hd' : 0 < d') (h : a * d' ≤ a' * d) :
    divToEven a d ≤ divToEven a' d' := by
  have hq : a / d ≤ a' / d' := div_le_div_of_cross hd hd' h
  rcases hq.lt_or_eq with hlt | heq
  · exact (divToEven_le a d).trans (hlt.trans_le (div_le_divToEven a' d'))
  -- the quotients agree, so the remainders decide
  have hr : a % d * d' ≤ a' % d' * d := by
    have ha := Nat.div_add_mod a d
    have ha' := Nat.div_add_mod a' d'
    rw [← ha, ← ha', heq, Nat.add_mul, Nat.add_mul] at h
    have hcomm : d * (a' / d') * d' = d' * (a' / d') * d := by ring
    omega
  have hhalf : d < 2 * (a % d) → d' < 2 * (a' % d') := by
    intro hgt
    have hmul : d' * d < 2 * (a' % d') * d := by nlinarith
    exact Nat.lt_of_mul_lt_mul_right hmul
  have htie : d ≤ 2 * (a % d) → d' ≤ 2 * (a' % d') := by
    intro hge
    have hmul : d' * d ≤ 2 * (a' % d') * d := by nlinarith
    exact Nat.le_of_mul_le_mul_right hmul hd
  unfold divToEven
  rw [heq]
  dsimp only
  split_ifs <;> omega

/-! ## The magnitude of a rounded fraction -/

/-- The exponent of the last digit that is kept of `a / d`. -/
def scale (a d : Nat) : Nat := Nat.log2 (a / d) - 52

/-- The fraction `a / d` rounded to 53 binary digits. -/
def nearest (a d : Nat) : Nat := divToEven a (d * 2 ^ scale a d) * 2 ^ scale a d

theorem lt_two_pow_scale (a d : Nat) : a / d < 2 ^ (53 + scale a d) := by
  refine (Nat.lt_log2_self (n := a / d)).trans_le ?_
  refine Nat.pow_le_pow_right (by decide) ?_
  unfold scale
  omega

theorem div_scale_lt (a d : Nat) : a / (d * 2 ^ scale a d) < 2 ^ 53 := by
  rw [← Nat.div_div_eq_div_mul, Nat.div_lt_iff_lt_mul (by positivity), ← Nat.pow_add]
  exact lt_two_pow_scale a d

theorem le_div_scale (h : scale a d ≠ 0) : 2 ^ 52 ≤ a / (d * 2 ^ scale a d) := by
  have hq : a / d ≠ 0 := by
    intro hzero
    exact h (by rw [scale, hzero]; rfl)
  have hlog : 52 + scale a d = Nat.log2 (a / d) := by
    unfold scale at h ⊢
    omega
  rw [← Nat.div_div_eq_div_mul, Nat.le_div_iff_mul_le (by positivity), ← Nat.pow_add, hlog]
  exact Nat.log2_self_le hq

theorem divToEven_scale_le (a d : Nat) : divToEven a (d * 2 ^ scale a d) ≤ 2 ^ 53 :=
  (divToEven_le _ _).trans (div_scale_lt a d)

/-- The magnitudes below which a number is finite. -/
theorem finite_iff {m p : Nat} (hm : m < 2 ^ 53) (hp : 2 ^ 52 ≤ m ∨ p = 0) :
    p ≤ 2045 ↔ m * 2 ^ p < 2 ^ 2098 := by
  constructor
  · intro h
    have hlt : m * 2 ^ p < 2 ^ (53 + p) := by
      rw [Nat.pow_add]
      exact Nat.mul_lt_mul_of_pos_right hm (by positivity)
    refine hlt.trans_le ?_
    rw [Nat.pow_le_pow_iff_right (by decide)]
    omega
  · intro h
    rcases hp with hp | rfl
    · have hlt : 2 ^ (52 + p) < 2 ^ 2098 := by
        rw [Nat.pow_add]
        exact (Nat.mul_le_mul_right _ hp).trans_lt h
      have hexp := (Nat.pow_lt_pow_iff_right (by decide)).mp hlt
      omega
    · exact Nat.zero_le _

theorem build_of_lt {n : Bool} {m p : Nat} (hm : m < 2 ^ 53) (hp : 2 ^ 52 ≤ m ∨ p = 0)
    (h : m * 2 ^ p < 2 ^ 2098) :
    ∃ hc : Canonical m p, build n m p = finite n m p hc := by
  have hc : Canonical m p := ⟨hm, hp, (finite_iff hm hp).mpr h⟩
  exact ⟨hc, dif_pos hc⟩

theorem build_of_le {n : Bool} {m p : Nat} (hm : m < 2 ^ 53) (hp : 2 ^ 52 ≤ m ∨ p = 0)
    (h : 2 ^ 2098 ≤ m * 2 ^ p) : build n m p = infinite n := by
  refine dif_neg fun hc => ?_
  exact absurd ((finite_iff hm hp).mp hc.2.2) (Nat.not_lt.mpr h)

theorem round_def (n : Bool) (a d : Nat) : round n a d =
    if divToEven a (d * 2 ^ scale a d) = 2 ^ 53 then build n (2 ^ 52) (scale a d + 1)
    else build n (divToEven a (d * 2 ^ scale a d)) (scale a d) := rfl

/-- A fraction is rounded to a significand and an exponent that write its nearest magnitude. -/
theorem round_eq_build (n : Bool) (a d : Nat) :
    ∃ m p, round n a d = build n m p ∧ m < 2 ^ 53 ∧ (2 ^ 52 ≤ m ∨ p = 0) ∧
      m * 2 ^ p = nearest a d := by
  rw [round_def]
  split
  · rename_i hcarry
    refine ⟨2 ^ 52, scale a d + 1, rfl, by decide, .inl le_rfl, ?_⟩
    rw [nearest, hcarry, Nat.pow_succ]
    ring
  · rename_i hnot
    refine ⟨_, _, rfl, lt_of_le_of_ne (divToEven_scale_le a d) hnot, ?_, rfl⟩
    by_cases hzero : scale a d = 0
    · exact .inr hzero
    · exact .inl ((le_div_scale hzero).trans (div_le_divToEven _ _))

theorem round_of_lt (n : Bool) (h : nearest a d < 2 ^ 2098) :
    ∃ m p hc, round n a d = finite n m p hc ∧ m * 2 ^ p = nearest a d := by
  obtain ⟨m, p, hround, hm, hp, hmp⟩ := round_eq_build n a d
  obtain ⟨hc, hbuild⟩ := build_of_lt (n := n) hm hp (hmp ▸ h)
  exact ⟨m, p, hc, hround.trans hbuild, hmp⟩

theorem round_of_le (n : Bool) (h : 2 ^ 2098 ≤ nearest a d) : round n a d = infinite n := by
  obtain ⟨m, p, hround, hm, hp, hmp⟩ := round_eq_build n a d
  exact hround.trans (build_of_le hm hp (hmp ▸ h))

/-! ## The laws -/

/-- Only the fraction counts, not how it is written. -/
theorem round_scale (n : Bool) (a d : Nat) (hk : 0 < k) :
    round n (a * k) (d * k) = round n a d := by
  have hscale : scale (a * k) (d * k) = scale a d := by
    unfold scale
    rw [Nat.mul_div_mul_right a d hk]
  rw [round_def, round_def, hscale, Nat.mul_right_comm, divToEven_scale hk]

theorem log2_mul_two_pow {m : Nat} (hm : m ≠ 0) (p : Nat) :
    Nat.log2 (m * 2 ^ p) = Nat.log2 m + p := by
  rw [Nat.log2_eq_iff (by positivity)]
  constructor
  · rw [Nat.pow_add]
    exact Nat.mul_le_mul_right _ (Nat.log2_self_le hm)
  · rw [Nat.add_right_comm, Nat.pow_add]
    exact Nat.mul_lt_mul_of_pos_right Nat.lt_log2_self (by positivity)

/-- The exponent of a magnitude in its form is the one that rounding keeps. -/
theorem scale_of_canonical {m p : Nat} (hc : Canonical m p) : scale (m * 2 ^ p) 1 = p := by
  obtain ⟨hm, hp, -⟩ := hc
  unfold scale
  rw [Nat.div_one]
  by_cases hzero : m = 0
  · subst hzero
    rcases hp with hp | rfl
    · exact absurd hp (by decide)
    · rw [Nat.zero_mul]
      rfl
  rw [log2_mul_two_pow hzero]
  have hlt : Nat.log2 m < 53 := (Nat.log2_lt hzero).mpr hm
  rcases hp with hp | rfl
  · have hge : 52 ≤ Nat.log2 m := (Nat.le_log2 hzero).mpr hp
    omega
  · omega

/-- A magnitude that has a form is rounded to itself. -/
theorem round_units {n : Bool} {m p : Nat} (hc : Canonical m p) :
    round n (m * 2 ^ p) 1 = finite n m p hc := by
  have hm : m < 2 ^ 53 := hc.1
  rw [round_def, scale_of_canonical hc, Nat.one_mul, divToEven_mul m (by positivity),
    if_neg (Nat.ne_of_lt hm)]
  exact dif_pos hc

/-- A larger fraction is not rounded to a smaller magnitude. -/
theorem nearest_mono (hd : 0 < d) (hd' : 0 < d') (h : a * d' ≤ a' * d) :
    nearest a d ≤ nearest a' d' := by
  have hq : a / d ≤ a' / d' := div_le_div_of_cross hd hd' h
  have hscale : scale a d ≤ scale a' d' := by
    have hlog : Nat.log2 (a / d) ≤ Nat.log2 (a' / d') := by
      by_cases hzero : a / d = 0
      · rw [hzero]
        exact Nat.zero_le _
      · have hpos : 0 < a' / d' := (Nat.pos_of_ne_zero hzero).trans_le hq
        exact (Nat.le_log2 hpos.ne').mpr ((Nat.log2_self_le hzero).trans hq)
    unfold scale
    omega
  rcases hscale.lt_or_eq with hlt | heq
  · calc nearest a d ≤ 2 ^ 53 * 2 ^ scale a d :=
          Nat.mul_le_mul_right _ (divToEven_scale_le a d)
      _ = 2 ^ (53 + scale a d) := (Nat.pow_add 2 53 _).symm
      _ ≤ 2 ^ (52 + scale a' d') := Nat.pow_le_pow_right (by decide) (by omega)
      _ = 2 ^ 52 * 2 ^ scale a' d' := Nat.pow_add 2 52 _
      _ ≤ nearest a' d' := by
          refine Nat.mul_le_mul_right _ ?_
          exact (le_div_scale (by omega)).trans (div_le_divToEven _ _)
  · unfold nearest
    rw [heq]
    refine Nat.mul_le_mul_right _ (divToEven_mono (by positivity) (by positivity) ?_)
    calc a * (d' * 2 ^ scale a' d') = a * d' * 2 ^ scale a' d' := (Nat.mul_assoc _ _ _).symm
      _ ≤ a' * d * 2 ^ scale a' d' := Nat.mul_le_mul_right _ h
      _ = a' * (d * 2 ^ scale a' d') := Nat.mul_assoc _ _ _

end Montage.Binary64
