/-
# Frames in milliseconds and back

A count of frames is written in whole milliseconds, and a bare number is read as milliseconds.
Both ways compute with floats and round half up at the end.  Up to 120 frames a second and for
counts up to `10 ^ 9` the frames come back (`frames_come_back`):

    milliseconds    f / fps * 1000    off by 1 / 2 + 1 / 1000 at most
    frames          m / 1000 * fps    off by 120 / 1000 of that, so by less than 1 / 16

The `1 / 1000` is room for the errors of the floats, and what the `1 / 16` leaves to a half frame
is the room for them on the way back.
-/
import Montage.Proofs.Error

namespace Montage.Duration

open Binary64 (Near slack)

variable {f fps m : ℕ} {x : Number} {y : Binary64}

theorem seconds_le (hfps : 1 ≤ fps) (hf : f ≤ 10 ^ 9) : (f : ℚ) / fps ≤ 10 ^ 9 := by
  have hfps' : (1 : ℚ) ≤ fps := by exact_mod_cast hfps
  have hf' : (f : ℚ) ≤ 10 ^ 9 := by exact_mod_cast hf
  exact (div_le_self (Nat.cast_nonneg f) hfps').trans hf'

theorem slack_seconds : slack (10 ^ 9 + 2) ≤ 1 / 5000000 := by norm_num [slack]

theorem slack_milliseconds : slack (10 ^ 12 + 2) ≤ 1 / 5000 := by norm_num [slack]

/-- The milliseconds of a count of frames are off by little more than a half. -/
theorem msOfFrames_near (hfps : 1 ≤ fps) (hf : f ≤ 10 ^ 9) :
    ∃ m : ℕ, msOfFrames (.int f) (.int fps) = .ok m ∧
      |(m : ℚ) - f / fps * 1000| ≤ 1 / 2 + 1 / 1000 := by
  have hseconds := seconds_le hfps hf
  have hslack := slack_milliseconds
  obtain ⟨y, hdiv, hy⟩ := Number.near_div (B := 10 ^ 9 + 2) hfps
    (hseconds.trans (by norm_num)) (by norm_num)
  obtain ⟨z, hmul, hz⟩ := Number.near_float_mul (k := 1000) (B := 10 ^ 12 + 2)
    (hy.mono slack_seconds) (by norm_num) (by push_cast; linarith) (by norm_num)
  obtain ⟨m, hround, hm⟩ := hz.roundHalfUp (B := 10 ^ 12 + 2) (by push_cast; linarith)
    (by norm_num)
  have hmul' : (Number.float y).mul (.int 1000) = .ok (.float z) := hmul
  refine ⟨m, ?_, ?_⟩
  · rw [msOfFrames, hdiv, ok_bind, hmul', ok_bind, hround]
  · push_cast at hm
    linarith

/-- So many of the `k` parts of a second stand for frames that are off in proportion. -/
theorem frames_of_parts {k e : ℚ} (hfps : 1 ≤ fps) (hk : 0 < k)
    (hm : |(m : ℚ) - f / fps * k| ≤ e) : |(m : ℚ) / k * fps - f| ≤ e * (fps / k) := by
  have hpos : (0 : ℚ) < fps := by exact_mod_cast hfps
  have hscaled : (m : ℚ) / k * fps - f = (m - f / fps * k) * (fps / k) := by
    field_simp
  rw [hscaled, abs_mul, abs_of_pos (div_pos hpos hk)]
  exact mul_le_mul_of_nonneg_right hm (div_pos hpos hk).le

/-- Milliseconds that are little more than a half off stand for frames that are less than a
sixteenth off. -/
theorem frames_near (hfps : 1 ≤ fps) (hmost : fps ≤ 120)
    (hm : |(m : ℚ) - f / fps * 1000| ≤ 1 / 2 + 1 / 1000) :
    |(m : ℚ) / 1000 * fps - f| ≤ 1 / 16 := by
  have hmost' : (fps : ℚ) ≤ 120 := by exact_mod_cast hmost
  have hoff := frames_of_parts hfps (by norm_num) hm
  linarith

/-- Milliseconds that are little more than a half off make the frames that they stand for. -/
theorem framesOfMs_of_near (hfps : 1 ≤ fps) (hmost : fps ≤ 120) (hf : f ≤ 10 ^ 9)
    (hm : |(m : ℚ) - f / fps * 1000| ≤ 1 / 2 + 1 / 1000) (hdiv : x.div (.int 1000) = .ok y)
    (hy : Near y (m / 1000) (slack (10 ^ 9 + 2))) : framesOfMs x (.int fps) = .ok f := by
  have hmost' : (fps : ℚ) ≤ 120 := by exact_mod_cast hmost
  have hf' : (f : ℚ) ≤ 10 ^ 9 := by exact_mod_cast hf
  have hback := frames_near hfps hmost hm
  have hupper := (abs_le.mp hback).2
  have hslack := slack_seconds
  obtain ⟨z, hmul, hz⟩ := Number.near_float_mul (B := 10 ^ 9 + 2) (hy.mono hslack)
    (hmost.trans_lt (by norm_num)) (by linarith) (by norm_num)
  rw [framesOfMs, hdiv, ok_bind, hmul, ok_bind]
  exact hz.roundHalfUp_eq (B := 10 ^ 9 + 2) (by linarith) (by norm_num) (by linarith)

/-! ## Whole numbers -/

theorem value_toDigits (m : ℕ) : (Amount.mk (Nat.toDigits 10 m) []).value = .ofInt m := by
  have hsign : decide ((m : Int) < 0) = false := by simp
  rw [Amount.value, List.append_nil, natOfDigits_toDigits, Binary64.ofDecimal_eq, Binary64.ofInt,
    hsign]
  simp

/-- The digits of a number, and the letters of a unit behind them. -/
theorem read_number (n : ℕ) (scale : Scale) {letters : String} {fps : Number}
    (h : (small letters.toList, scale) ∈ units ++ longUnits) :
    read (toString n ++ letters) fps = (framesOf ⟨Nat.toDigits 10 n, []⟩ scale fps).map some := by
  have hchars : toString n ++ letters =
      String.ofList ((Amount.mk (Nat.toDigits 10 n) []).chars ++ letters.toList) := by
    rw [← String.toList_inj, String.toList_ofList, String.toList_append, Amount.chars, if_pos rfl,
      List.append_nil, Nat.toString_eq_repr, Nat.toList_repr]
  have hplain : (Amount.mk (Nat.toDigits 10 n) []).Plain :=
    ⟨Nat.toDigits_ne_nil, isDigit_toDigits n, fun _ hc => absurd hc List.not_mem_nil⟩
  rw [read, hchars, parts?_plain scale hplain h]

/-- The digits of a number are read as so many milliseconds. -/
theorem read_toString (m : ℕ) (fps : Number) :
    read (toString (m : Int)) fps = (framesOfMs (.float (.ofInt m)) fps).map some := by
  have hbare : toString (m : Int) = toString m ++ "" := String.append_empty.symm
  rw [hbare, read_number m .milliseconds (by simp [small, units]), framesOf, value_toDigits]

/-- Frames that are written in milliseconds come back, whether the milliseconds are taken as a
number or read as a text. -/
theorem frames_come_back {f fps : Int} (hfps : 1 ≤ fps) (hmost : fps ≤ 120) (hf : 0 ≤ f)
    (hle : f ≤ 10 ^ 9) :
    ∃ m : Int, msOfFrames (.int f) (.int fps) = .ok m ∧
      framesOfMs (.int m) (.int fps) = .ok f ∧
      read (toString m) (.int fps) = .ok (some f) := by
  lift f to ℕ using hf
  lift fps to ℕ using Int.le_of_lt hfps
  have hfps : 1 ≤ fps := by exact_mod_cast hfps
  have hmost : fps ≤ 120 := by exact_mod_cast hmost
  have hle : f ≤ 10 ^ 9 := by exact_mod_cast hle
  obtain ⟨m, hms, hm⟩ := msOfFrames_near hfps hle
  have hseconds : (m : ℚ) / 1000 ≤ 10 ^ 9 + 2 := by
    linarith [(abs_le.mp hm).2, seconds_le hfps hle]
  refine ⟨m, hms, ?_, ?_⟩
  · obtain ⟨y, hdiv, hy⟩ := Number.near_div (k := 1000) (by decide) hseconds (by norm_num)
    exact framesOfMs_of_near hfps hmost hle hm hdiv hy
  · have hexact : m < 2 ^ 53 := by
      have hlt : (m : ℚ) < 2 ^ 53 := by linarith
      exact_mod_cast hlt
    obtain ⟨y, hdiv, hy⟩ := Number.near_float_div (k := 1000) (Binary64.exact_ofInt hexact)
      (by decide) (by decide) (by simpa using hseconds) (by norm_num)
    rw [zero_div, add_zero] at hy
    rw [read_toString, framesOfMs_of_near hfps hmost hle hm hdiv hy]
    rfl

/-- The greatest count at a frame rate that does not divide it. -/
theorem billion_frames_come_back :
    (1 : Int) ≤ 119 ∧ (119 : Int) ≤ 120 ∧ (0 : Int) ≤ 10 ^ 9 ∧ (10 ^ 9 : Int) ≤ 10 ^ 9 ∧
      ∃ m : Int, msOfFrames (.int (10 ^ 9)) (.int 119) = .ok m ∧
        framesOfMs (.int m) (.int 119) = .ok (10 ^ 9) ∧
        read (toString m) (.int 119) = .ok (some (10 ^ 9)) :=
  ⟨by norm_num, by norm_num, by norm_num, le_rfl,
    frames_come_back (by norm_num) (by norm_num) (by norm_num) le_rfl⟩

end Montage.Duration
