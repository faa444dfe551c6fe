/-
# Decimal numbers read as floats

`ofDecimal` decides some exponents without computing anything.  These shortcuts
agree with rounding the fraction (`ofDecimal_eq`), so that only the value of a
decimal number counts, not how digits and exponent share it (`ofDecimal_shift`).

The fewest digits of a finite number read back as this number (`shortest_reads`):
a grid point is only taken if it does, and without one there are all the digits.
-/
import Montage.Proofs.Rounding

namespace Montage.Binary64

variable {n : Bool} {a d a' d' : Nat}

/-! ## Rounding at the ends of the range -/

theorem nearest_two_pow {k : Nat} (hk : 52 ≤ k) : nearest (2 ^ k) 1 = 2 ^ k := by
  have hscale : scale (2 ^ k) 1 = k - 52 := by
    unfold scale
    rw [Nat.div_one, Nat.log2_two_pow]
  have hsplit : 2 ^ k = 2 ^ 52 * 2 ^ (k - 52) := by
    rw [← Nat.pow_add, Nat.add_sub_cancel' hk]
  unfold nearest
  rw [hscale, Nat.one_mul, hsplit, divToEven_mul _ (by positivity)]

/-- A fraction below a half is rounded to nothing. -/
theorem nearest_of_lt (h : 2 * a < d) : nearest a d = 0 := by
  have hdiv : a / d = 0 := Nat.div_eq_of_lt (by omega)
  have hmod : a % d = a := Nat.mod_eq_of_lt (by omega)
  have hscale : scale a d = 0 := by
    unfold scale
    rw [hdiv]
    rfl
  unfold nearest divToEven
  rw [hscale, Nat.pow_zero, Nat.mul_one, Nat.mul_one, hdiv, hmod]
  exact if_pos h

theorem exponent_eq_zero {p : Nat} (hc : Canonical 0 p) : p = 0 := by
  rcases hc.2.1 with hle | hp
  · exact absurd hle (by decide)
  · exact hp

theorem round_of_nearest_zero (h : nearest a d = 0) : round n a d = zero n := by
  obtain ⟨m, p, hc, hround, hmp⟩ := round_of_lt (a := a) (d := d) n (h ▸ by positivity)
  have hm : m = 0 := by
    rcases Nat.mul_eq_zero.mp (hmp.trans h) with hm | hp
    · exact hm
    · exact absurd hp (by positivity)
  subst hm
  obtain rfl := exponent_eq_zero hc
  exact hround

theorem round_zero (n : Bool) (d : Nat) (hd : 0 < d) : round n 0 d = zero n :=
  round_of_nearest_zero (nearest_of_lt (by omega))

/-! ## Decimal numbers -/

/-- Equal fractions are rounded to the same number. -/
theorem ofRatio_congr (hd : 0 < d) (hd' : 0 < d') (h : a * d' = a' * d) :
    ofRatio n a d = ofRatio n a' d' := by
  unfold ofRatio
  rw [← round_scale n (a * one) d hd', ← round_scale n (a' * one) d' hd, Nat.mul_comm d' d,
    Nat.mul_right_comm, h, Nat.mul_right_comm]

theorem two_pow_le_ten_pow (k : Nat) : 2 ^ (3 * k) ≤ 10 ^ k := by
  rw [Nat.pow_mul]
  exact Nat.pow_le_pow_left (by decide) k

theorem two_pow_mul_one (k : Nat) : 2 ^ k * one = 2 ^ (k + 1074) := by
  have hadd (l : Nat) : 2 ^ k * Nat.pow 2 l = 2 ^ (k + l) := (Nat.pow_add 2 k l).symm
  unfold one
  apply hadd

/-- An integer with so large a power of two below it is beyond the range. -/
theorem round_of_two_pow_le {digits k : Nat} (hk : 1024 ≤ k) (h : 2 ^ k ≤ digits) :
    round n (digits * one) 1 = infinite n := by
  have hle : 2 ^ (k + 1074) ≤ digits * one := by
    rw [← two_pow_mul_one]
    exact Nat.mul_le_mul_right _ h
  have hnearest : 2 ^ (k + 1074) ≤ nearest (digits * one) 1 := by
    rw [← nearest_two_pow (k := k + 1074) (by omega)]
    exact nearest_mono Nat.one_pos Nat.one_pos (Nat.mul_le_mul_right 1 hle)
  have hlimit (l : Nat) (hl : l ≤ k + 1074) : 2 ^ l ≤ nearest (digits * one) 1 :=
    (Nat.pow_le_pow_right (by decide) hl).trans hnearest
  exact round_of_le n (hlimit 2098 (by omega))

/-- A decimal number with so large an exponent is beyond the range. -/
theorem round_of_large {digits k : Nat} (hdigits : 0 < digits) (hk : 2098 ≤ 3 * k + 1074) :
    round n (digits * 10 ^ k * one) 1 = infinite n :=
  round_of_two_pow_le (by omega)
    ((two_pow_le_ten_pow k).trans (Nat.le_mul_of_pos_left _ hdigits))

/-- A decimal number with so small an exponent is less than half of the least positive number. -/
theorem two_mul_lt_ten_pow {digits k : Nat} (hk : Nat.log2 digits + 1076 ≤ 3 * k) :
    2 * (digits * one) < 10 ^ k := by
  have hdigits : digits * one < 2 ^ (Nat.log2 digits + 1 + 1074) := by
    rw [← two_pow_mul_one]
    exact Nat.mul_lt_mul_of_pos_right Nat.lt_log2_self one_pos
  calc 2 * (digits * one) < 2 * 2 ^ (Nat.log2 digits + 1 + 1074) :=
        Nat.mul_lt_mul_of_pos_left hdigits (by decide)
    _ = 2 ^ (Nat.log2 digits + 1 + 1074 + 1) := Nat.pow_succ'.symm
    _ ≤ 2 ^ (3 * k) := Nat.pow_le_pow_right (by decide) (by omega)
    _ ≤ 10 ^ k := two_pow_le_ten_pow k

/-- A decimal number is rounded as the fraction that it is, whatever its exponent. -/
theorem ofDecimal_eq (n : Bool) (digits : Nat) (exponent : Int) :
    ofDecimal n digits exponent =
      ofRatio n (digits * 10 ^ exponent.toNat) (10 ^ (-exponent).toNat) := by
  unfold ofDecimal
  split
  · rename_i hzero
    rw [hzero, Nat.zero_mul, ofRatio, Nat.zero_mul]
    exact (round_zero n _ (by positivity)).symm
  rename_i hdigits
  split
  · -- at least `10 ^ 401`, which is beyond the largest number
    rename_i hlarge
    have hden : (-exponent).toNat = 0 := by omega
    rw [hden, Nat.pow_zero]
    exact (round_of_large (Nat.pos_of_ne_zero hdigits) (by omega)).symm
  rename_i hnotLarge
  split
  · -- less than half of the least positive number
    rename_i hsmall
    have hnum : exponent.toNat = 0 := by omega
    rw [hnum, Nat.pow_zero, Nat.mul_one]
    exact (round_of_nearest_zero (nearest_of_lt (two_mul_lt_ten_pow (by omega)))).symm
  split
  · rename_i hnonneg
    have hden : (-exponent).toNat = 0 := by omega
    rw [hden, Nat.pow_zero]
    rfl
  · rename_i hneg
    have hnum : exponent.toNat = 0 := by omega
    rw [hnum, Nat.pow_zero, Nat.mul_one]
    rfl

/-- An integer of more than some three hundred digits is beyond the range. -/
theorem ofDecimal_of_long {digits k : Nat} (hk : 1024 ≤ 3 * k) (h : 10 ^ k ≤ digits) (n : Bool) :
    ofDecimal n digits 0 = infinite n := by
  rw [ofDecimal_eq]
  exact round_of_two_pow_le hk
    ((two_pow_le_ten_pow k).trans (h.trans (Nat.le_mul_of_pos_right _ Nat.one_pos)))

/-- Only the value counts: digits may end in zeros that the exponent could count. -/
theorem ofDecimal_shift (n : Bool) (digits k : Nat) (exponent : Int) :
    ofDecimal n (digits * 10 ^ k) (exponent - k) = ofDecimal n digits exponent := by
  rw [ofDecimal_eq, ofDecimal_eq]
  refine ofRatio_congr (by positivity) (by positivity) ?_
  have hexp : k + (exponent - k).toNat + (-exponent).toNat =
      exponent.toNat + (-(exponent - k)).toNat := by omega
  rw [Nat.mul_assoc digits, Nat.mul_assoc digits, Nat.mul_assoc digits, ← Nat.pow_add,
    ← Nat.pow_add, ← Nat.pow_add, hexp]

/-! ## The fewest digits -/

theorem onGrid?_reads {x : Binary64} {k : Int} {d : Decimal} (h : x.onGrid? k = some d) :
    d.toBinary64 x.isNegative = x := by
  have hfind := List.find?_some (p := fun c => decide (Decimal.toBinary64 x.isNegative c = x)) h
  exact of_decide_eq_true hfind

/-- All the digits of a finite number. -/
theorem allDigits_read {m p l : Nat} (hc : Canonical m p) (hone : one = Nat.pow 2 l) :
    ofDecimal n (m * 2 ^ p * Nat.pow 5 l) (-l) = finite n m p hc := by
  have hnum : (-(l : Int)).toNat = 0 := by omega
  have hden : (-(-(l : Int))).toNat = l := by omega
  have hten : m * 2 ^ p * 5 ^ l * 2 ^ l = m * 2 ^ p * 10 ^ l := by
    rw [Nat.mul_assoc, ← Nat.mul_pow]
  rw [ofDecimal_eq, hnum, hden, ofRatio, hone, Nat.pow_zero, Nat.mul_one, Nat.pow_eq, Nat.pow_eq,
    hten]
  rw [← round_units hc, ← round_scale n (m * 2 ^ p) 1 (k := 10 ^ l) (by positivity), Nat.one_mul]

/-- The fewest digits of a finite number read back as this number. -/
theorem shortest_reads {m p : Nat} (hc : Canonical m p) :
    (shortest (finite n m p hc)).toBinary64 n = finite n m p hc := by
  by_cases hm : m = 0
  · subst hm
    obtain rfl := exponent_eq_zero hc
    rfl
  have hzero : (finite n m p hc).isZero = false := by simpa [isZero] using hm
  unfold shortest
  rw [hzero]
  simp only [Bool.false_eq_true, if_false]
  cases hfound : (List.range 17).findSome? fun (i : Nat) =>
      (finite n m p hc).onGrid? (tenPower (finite n m p hc).units one - (i : Int)) with
  | none =>
      have hone : one = Nat.pow 2 1074 := by
        delta one
        exact Eq.refl _
      apply allDigits_read hc hone
  | some d =>
      obtain ⟨i, -, hgrid⟩ := List.exists_of_findSome?_eq_some hfound
      exact onGrid?_reads hgrid

end Montage.Binary64
