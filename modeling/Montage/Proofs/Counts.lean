/-
# Counts of frames

Digits and an `f` are so many frames.  The digits are read as a float, which has 53 binary digits
and zeros behind them (`Representable`), and then a half is added and the fraction cut off:

    n                               frames
    below `2 ^ 52`                  n, since a half more has 53 binary digits
    from there to `2 ^ 53`, even    n, since a half more is a tie, and rounded to the even digit
    above                           the nearest of the numbers that floats can be

So a count that a float can be is kept, and another one becomes the nearest of those
(`read_frames`).  The odd counts between `2 ^ 52` and `2 ^ 53` are left out.  For them a half more
is a tie too, and the even digit is not theirs.
-/
import Montage.Proofs.Milliseconds

namespace Montage

namespace Binary64

variable {a d g m n p r : ℕ} {x : Binary64}

/-! ## The nearest magnitude -/

/-- No multiple of the divisor is nearer than the one that a division is rounded to. -/
theorem divToEven_closest (hd : 0 < d) (k : ℕ) :
    |((divToEven a d * d : ℕ) : ℤ) - a| ≤ |((k * d : ℕ) : ℤ) - a| := by
  obtain ⟨hlow, hhigh⟩ := divToEven_bounds (a := a) hd
  rcases Nat.lt_trichotomy k (divToEven a d) with hlt | rfl | hgt
  · have hstep : (k + 1) * d ≤ divToEven a d * d := Nat.mul_le_mul_right d hlt
    rw [Nat.add_mul, Nat.one_mul] at hstep
    rw [abs_le, abs_of_nonpos (by omega : ((k * d : ℕ) : ℤ) - a ≤ 0)]
    constructor <;> omega
  · exact le_rfl
  · have hstep : (divToEven a d + 1) * d ≤ k * d := Nat.mul_le_mul_right d hgt
    rw [Nat.add_mul, Nat.one_mul] at hstep
    rw [abs_le, abs_of_nonneg (by omega : 0 ≤ ((k * d : ℕ) : ℤ) - a)]
    constructor <;> omega

/-- No magnitude of 53 binary digits is nearer than the one that a magnitude is rounded to. -/
theorem nearest_closest (hm : m < 2 ^ 53) (a p : ℕ) :
    |(nearest a 1 : ℤ) - a| ≤ |((m * 2 ^ p : ℕ) : ℤ) - a| := by
  have hgrid : ∀ k : ℕ, |(nearest a 1 : ℤ) - a| ≤ |((k * 2 ^ scale a 1 : ℕ) : ℤ) - a| := by
    intro k
    unfold nearest
    rw [Nat.one_mul]
    exact divToEven_closest (Nat.two_pow_pos _) k
  by_cases hp : scale a 1 ≤ p
  · -- it has zeros where digits are cut off
    have hzeros : m * 2 ^ p = m * 2 ^ (p - scale a 1) * 2 ^ scale a 1 := by
      rw [Nat.mul_assoc, ← Nat.pow_add, Nat.sub_add_cancel hp]
    rw [hzeros]
    exact hgrid _
  · -- it is below the least number with 53 digits before those that are cut off
    have hleast : 2 ^ 52 * 2 ^ scale a 1 ≤ a := by
      have hle := le_div_scale (a := a) (d := 1) (by omega)
      rwa [Nat.one_mul, Nat.le_div_iff_mul_le (Nat.two_pow_pos _)] at hle
    have hbelow : m * 2 ^ p ≤ 2 ^ 52 * 2 ^ scale a 1 := by
      calc m * 2 ^ p ≤ 2 ^ 53 * 2 ^ p := Nat.mul_le_mul_right _ hm.le
        _ = 2 ^ 52 * 2 ^ (p + 1) := by rw [Nat.pow_succ]; ring
        _ ≤ 2 ^ 52 * 2 ^ scale a 1 :=
            Nat.mul_le_mul_left _ (Nat.pow_le_pow_right (by decide) (by omega))
    refine (hgrid (2 ^ 52)).trans ?_
    rw [abs_of_nonpos (by omega), abs_of_nonpos (by omega)]
    omega

/-- What is added to a magnitude is lost in rounding if it is less than half of the last digit, or
as much as that and the digit is even. -/
theorem nearest_add (hlow : 2 ^ 52 ≤ m) (hhigh : m < 2 ^ 53)
    (hr : 2 * r < 2 ^ p ∨ 2 * r = 2 ^ p ∧ Even m) : nearest (m * 2 ^ p + r) 1 = m * 2 ^ p := by
  have hpos := Nat.two_pow_pos p
  have hlt : r < 2 ^ p := by omega
  have hlog : Nat.log2 (m * 2 ^ p + r) = 52 + p := by
    rw [Nat.log2_eq_iff (by positivity)]
    constructor
    · rw [Nat.pow_add]
      exact (Nat.mul_le_mul_right _ hlow).trans (Nat.le_add_right _ _)
    · calc m * 2 ^ p + r < (m + 1) * 2 ^ p := by
            rw [Nat.add_mul, Nat.one_mul]
            exact Nat.add_lt_add_left hlt _
        _ ≤ 2 ^ 53 * 2 ^ p := Nat.mul_le_mul_right _ hhigh
        _ = 2 ^ (52 + p + 1) := by rw [← Nat.pow_add, Nat.add_right_comm]
  have hscale : scale (m * 2 ^ p + r) 1 = p := by
    unfold scale
    rw [Nat.div_one, hlog, Nat.add_sub_cancel_left]
  have hdigits : divToEven (m * 2 ^ p + r) (2 ^ p) = m := by
    have hdiv : (m * 2 ^ p + r) / 2 ^ p = m := by
      rw [Nat.mul_comm, Nat.mul_add_div hpos, Nat.div_eq_of_lt hlt, Nat.add_zero]
    have hmod : (m * 2 ^ p + r) % 2 ^ p = r := by
      rw [Nat.mul_comm, Nat.mul_add_mod, Nat.mod_eq_of_lt hlt]
    unfold divToEven
    rw [hdiv, hmod]
    rcases hr with hless | ⟨htie, heven⟩
    · exact if_pos hless
    · dsimp only
      rw [if_neg (by omega), if_neg (by omega), if_pos (Nat.even_iff.mp heven)]
  rw [nearest, hscale, Nat.one_mul, hdigits]

/-! ## Whole numbers -/

/-- How many zeros one and a half have in units. -/
theorem exists_exponent :
    ∃ e, 52 ≤ e ∧ e ≤ 2044 ∧ Duration.half.units = 2 ^ e ∧ one = 2 ^ (e + 1) := by
  have hone : ∃ e, 52 < e ∧ e ≤ 2045 ∧ one = 2 ^ e := ⟨_, by decide, by decide, one_eq⟩
  obtain ⟨_ | e, hlow, hhigh, hone⟩ := hone
  · cases hlow
  refine ⟨e, by omega, by omega, ?_, hone⟩
  have hhalf := half_units
  rw [hone, Nat.pow_succ] at hhalf
  exact Nat.eq_of_mul_eq_mul_right Nat.two_pos hhalf

/-- A float can be this number: it is 53 binary digits and zeros. -/
def Representable (n : ℕ) : Prop := ∃ m k, m < 2 ^ 53 ∧ n = m * 2 ^ k

/-- A whole number is rounded to one that a float can be, and to an even one if it has more than 53
digits. -/
theorem exists_nearest (n : ℕ) : ∃ g, nearest (n * one) 1 = g * one ∧ Representable g ∧
    (n < 2 ^ 53 → g = n) ∧ (2 ^ 53 ≤ n → Even g ∧ 2 ^ 52 ≤ g) := by
  rcases Nat.lt_or_ge n (2 ^ 53) with hn | hn
  · refine ⟨n, (form_nat hn).nearest, ⟨n, 0, hn, ?_⟩, fun _ => rfl, fun h => ?_⟩
    · rw [Nat.pow_zero, Nat.mul_one]
    · exact absurd hn (Nat.not_lt.mpr h)
  have hlog : 53 ≤ Nat.log2 n := (Nat.le_log2 (by omega)).mpr hn
  obtain ⟨e, -, -, -, hone⟩ := exists_exponent
  have hscale : scale (n * one) 1 = Nat.log2 n - 52 + (e + 1) := by
    unfold scale
    rw [Nat.div_one, hone, log2_mul_two_pow (by omega)]
    omega
  have hlow := (le_div_scale (a := n * one) (d := 1) (by omega)).trans (div_le_divToEven _ _)
  have hhigh := divToEven_scale_le (n * one) 1
  generalize hq : divToEven (n * one) (1 * 2 ^ scale (n * one) 1) = q at hlow hhigh
  have hnearest : nearest (n * one) 1 = q * 2 ^ (Nat.log2 n - 52) * one := by
    rw [nearest, hq, hscale, Nat.pow_add, ← hone, Nat.mul_assoc]
  have hpow : 1 ≤ 2 ^ (Nat.log2 n - 52) := Nat.two_pow_pos _
  refine ⟨_, hnearest, ?_, fun h => absurd hn (Nat.not_le.mpr h), fun _ => ⟨?_, ?_⟩⟩
  · rcases hhigh.lt_or_eq with hlt | rfl
    · exact ⟨q, _, hlt, rfl⟩
    · exact ⟨1, 53 + (Nat.log2 n - 52), by decide, by rw [Nat.one_mul, Nat.pow_add]⟩
  · have heven : Even (2 ^ (Nat.log2 n - 52)) := (Nat.even_pow.mpr ⟨even_two, by omega⟩)
    exact heven.mul_left q
  · exact hlow.trans (Nat.le_mul_of_pos_right q hpow)

/-- The number that a whole number is rounded to is the nearest of those that floats can be. -/
theorem closest_of_nearest (hg : nearest (n * one) 1 = g * one) {k : ℕ} (hk : Representable k) :
    |(g : ℤ) - n| ≤ |(k : ℤ) - n| := by
  obtain ⟨m, l, hm, rfl⟩ := hk
  have hone : (0 : ℤ) < one := by exact_mod_cast one_pos
  obtain ⟨e, -, -, -, he⟩ := exists_exponent
  have hclosest := nearest_closest hm (n * one) (l + (e + 1))
  have hunits : m * 2 ^ (l + (e + 1)) = m * 2 ^ l * one := by
    rw [he, Nat.pow_add, Nat.mul_assoc]
  rw [hg, hunits] at hclosest
  have hscaled (i : ℕ) : |((i * one : ℕ) : ℤ) - (n * one : ℕ)| = |(i : ℤ) - n| * one := by
    rw [Nat.cast_mul, Nat.cast_mul, ← sub_mul, abs_mul, abs_of_pos hone]
  rw [hscaled, hscaled] at hclosest
  exact le_of_mul_le_mul_right hclosest hone

/-! ## A half more -/

/-- A half more than a whole number is rounded to something between this number and the next one, if
the number is small enough to keep the half, or large enough to lose it and even. -/
theorem floor_nearest_add_half (hform : Form (g * one)) (hg : g < 2 ^ 52 ∨ 2 ^ 52 ≤ g ∧ Even g) :
    nearest (g * one + Duration.half.units) 1 / one = g := by
  have hhalf := half_units
  have hone := one_pos
  obtain ⟨e, he, he', hhalfeq, hexp⟩ := exists_exponent
  rcases hg with hsmall | ⟨hlarge, heven⟩
  · have hkept : g * one + Duration.half.units = (2 * g + 1) * 2 ^ e := by
      rw [hexp, hhalfeq, Nat.pow_succ]
      ring
    have hform : Form ((2 * g + 1) * 2 ^ e) := form_two_pow (by omega) he (by omega)
    rw [hkept, hform.nearest, ← hkept, Nat.add_comm, Nat.add_mul_div_right _ _ hone,
      Nat.div_eq_of_lt (by omega), Nat.zero_add]
  · obtain ⟨m, p, ⟨hhigh, hlow, -⟩, hunits⟩ := hform
    have hle : e + 1 ≤ p := by
      have hlt : 2 ^ (52 + (e + 1)) < 2 ^ (53 + p) := by
        calc 2 ^ (52 + (e + 1)) = 2 ^ 52 * one := by rw [Nat.pow_add, hexp]
          _ ≤ m * 2 ^ p := by
              rw [← hunits]
              exact Nat.mul_le_mul_right one hlarge
          _ < 2 ^ 53 * 2 ^ p := Nat.mul_lt_mul_of_pos_right hhigh (Nat.two_pow_pos p)
          _ = 2 ^ (53 + p) := (Nat.pow_add 2 53 p).symm
      have := (Nat.pow_lt_pow_iff_right (by decide)).mp hlt
      omega
    have hlow : 2 ^ 52 ≤ m := by
      rcases hlow with hlow | hzero
      · exact hlow
      · omega
    rw [hunits, nearest_add hlow hhigh, ← hunits, Nat.mul_div_cancel g hone]
    rcases hle.lt_or_eq with hlt | rfl
    · refine .inl ?_
      rw [Nat.mul_comm, hhalf, hexp]
      exact Nat.pow_lt_pow_right (by decide) hlt
    · refine .inr ⟨by rw [Nat.mul_comm, hhalf, hexp], ?_⟩
      rw [hexp] at hunits
      rwa [← Nat.eq_of_mul_eq_mul_right (Nat.two_pow_pos (e + 1)) hunits]

theorem units_round {b : Bool} (h : (round b a d).isFinite = true) :
    (round b a d).units = nearest a d := by
  rcases Nat.lt_or_ge (nearest a d) (2 ^ 2098) with hlt | hge
  · obtain ⟨m, p, hc, hround, hunits⟩ := round_of_lt b hlt
    rw [hround]
    exact hunits
  · rw [round_of_le b hge] at h
    cases h

theorem roundHalfUp_units (hx : x.isFinite = true) (hsign : x.isNegative = false) :
    Duration.roundHalfUp (.float x) =
      .ok ((nearest (x.units + Duration.half.units) 1 / one : ℕ) : Int) := by
  have hsum := isFinite_add_half hx
  have hround := add_eq_round hx isFinite_half hsign isNegative_half
  show Number.floor (x.add Duration.half) = _
  rw [hround] at hsum ⊢
  rw [floor_eq hsum (isNegative_round _ _ _), units_round hsum]

/-- A whole number is rounded to the integer that the nearest float is. -/
theorem roundHalfUp_ofInt (hfinite : (ofInt n).isFinite = true)
    (hodd : Odd n → n < 2 ^ 52 ∨ 2 ^ 53 < n) :
    ∃ g : ℕ, Duration.roundHalfUp (.float (ofInt n)) = .ok g ∧ (ofInt n).units = g * one ∧
      nearest (n * one) 1 = g * one ∧ Representable g := by
  obtain ⟨g, hnearest, hg, hsmall, hlarge⟩ := exists_nearest n
  have hround : ofInt n = round false (n * one) 1 := by
    have hsign : decide ((n : Int) < 0) = false := by simp
    rw [ofInt, ofRatio, hsign, Int.natAbs_natCast]
  rw [hround] at hfinite
  have hunits : (round false (n * one) 1).units = g * one := (units_round hfinite).trans hnearest
  rw [hround]
  refine ⟨g, ?_, hunits, hnearest, hg⟩
  rw [roundHalfUp_units hfinite (isNegative_round _ _ _), hunits,
    floor_nearest_add_half (hunits ▸ form_units hfinite)]
  rcases Nat.lt_or_ge n (2 ^ 53) with hn | hn
  · obtain rfl := hsmall hn
    rcases Nat.even_or_odd g with heven | hodd'
    · exact (Nat.lt_or_ge g (2 ^ 52)).imp_right fun h => ⟨h, heven⟩
    · exact .inl ((hodd hodd').resolve_right (by omega))
  · exact .inr (hlarge hn).symm

end Binary64

namespace Duration

open Binary64 (Representable one)

variable {n : ℕ}

/-! ## Counts -/

/-- A whole number of frames below `10 ^ 300` is taken for the nearest number that a float can be,
and so for itself if it is one of these. -/
theorem read_frames (hn : n < 10 ^ 300) (hodd : Odd n → n < 2 ^ 52 ∨ 2 ^ 53 < n) (fps : Number) :
    ∃ g : ℕ, read (toString n ++ "f") fps = .ok (some g) ∧ Representable g ∧
      (Binary64.ofInt n).magnitude = g ∧
      (∀ k, Representable k → |(g : ℤ) - n| ≤ |(k : ℤ) - n|) ∧ (Representable n → g = n) := by
  have hfinite : (Binary64.ofInt n).isFinite = true := by
    refine (Binary64.ofInt_within (n := n) Binary64.form_greatest ?_).1
    have htop : 10 ^ 300 * one ≤ Binary64.greatest := by decide +kernel
    rw [Int.natAbs_natCast]
    exact (Nat.mul_le_mul_right one hn.le).trans htop
  obtain ⟨g, hround, hunits, hnearest, hg⟩ := Binary64.roundHalfUp_ofInt hfinite hodd
  have hclosest : ∀ k, Representable k → |(g : ℤ) - n| ≤ |(k : ℤ) - n| :=
    fun k hk => Binary64.closest_of_nearest hnearest hk
  have hread : read (toString n ++ "f") fps = .ok (some g) := by
    rw [read_number n .frames (by simp [small, units]), framesOf, value_toDigits,
      hround]
    rfl
  refine ⟨g, hread, hg, ?_, hclosest, fun h => ?_⟩
  · rw [Binary64.magnitude, hunits, Nat.cast_mul, mul_div_cancel_right₀ _ Binary64.cast_one_pos.ne']
  · have hzero := hclosest n h
    rw [sub_self, abs_zero, abs_nonpos_iff, sub_eq_zero] at hzero
    exact_mod_cast hzero

/-- The last odd count that is kept. -/
theorem last_odd_count_is_kept :
    2 ^ 52 - 1 < 10 ^ 300 ∧ (Odd (2 ^ 52 - 1) → 2 ^ 52 - 1 < 2 ^ 52 ∨ 2 ^ 53 < 2 ^ 52 - 1) ∧
      read (toString (2 ^ 52 - 1) ++ "f") (.int 30) = .ok (some (2 ^ 52 - 1)) := by
  have hlt : 2 ^ 52 - 1 < 10 ^ 300 := by decide +kernel
  have hodd : Odd (2 ^ 52 - 1) → 2 ^ 52 - 1 < 2 ^ 52 ∨ 2 ^ 53 < 2 ^ 52 - 1 :=
    fun _ => .inl (by norm_num)
  obtain ⟨g, hread, -, -, -, hexact⟩ := read_frames hlt hodd (.int 30)
  obtain rfl := hexact ⟨2 ^ 52 - 1, 0, by norm_num, by norm_num⟩
  exact ⟨hlt, hodd, hread⟩

/-- The first count that no float can be loses a frame. -/
theorem first_lost_count :
    9007199254740993 < 10 ^ 300 ∧
      read (toString 9007199254740993 ++ "f") (.int 30) = .ok (some 9007199254740992) := by
  constructor
  all_goals decide +kernel

end Duration

end Montage
