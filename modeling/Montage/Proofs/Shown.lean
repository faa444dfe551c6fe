/-
# Durations as they are shown

What a message or a report shows for frames is itself a duration, and can be typed back.  Up to 120
frames a second and for counts up to `10 ^ 9` it is read as the same frames, unless it was rounded
to tenths of a second (`shown_is_read`):

    shown       read
    30f         roundHalfUp 30
    2m          2 * 60 * fps, a product that is an integer, and so near enough to it
    3s          3 * fps, as well
    1.5s        15 / 10 * fps, where 15 is off by a half, and so by `fps / 20` frames

In the last row the frames are rounded once more, which is another half.  The errors of the floats
would add to that, but frames are integers, and `20 * |g - f|` leaves no room between `fps + 10` and
the next one.
-/
import Montage.Proofs.Alike
import Montage.Proofs.Counts
import Montage.Proofs.NoteList

namespace Montage

/-! ## Floats -/

namespace Binary64

variable {x : Binary64} {n : ℕ} {q e : ℚ}

/-- A near number is less than an integer that is not near. -/
theorem Near.compareInt?_eq_lt (h : Near x q e) (hlt : q + e < n) :
    x.compareInt? n = some .lt := by
  have hunits : x.units < n * one := by
    have hmagnitude : x.magnitude < n := h.magnitude_le.trans_lt hlt
    rw [magnitude, div_lt_iff₀ cast_one_pos] at hmagnitude
    exact_mod_cast hmagnitude
  have hsigned : x.signedUnits = x.units := by
    rw [signedUnits, h.sign]
    rfl
  have hfinite := h.finite
  cases x with
  | finite =>
      unfold compareInt?
      dsimp only
      rw [hsigned, compare_lt_iff_lt.mpr (by exact_mod_cast hunits)]
  | _ => cases hfinite

/-- With a zero for the digit that may be missing, the last digit stands behind those of the
tenth. -/
theorem padded_toDigits (n : ℕ) :
    List.replicate (1 + 1 - (Nat.toDigits 10 n).length) '0' ++ Nat.toDigits 10 n =
      Nat.toDigits 10 (n / 10) ++ [Nat.digitChar (n % 10)] := by
  rcases Nat.lt_or_ge n 10 with hlt | hge
  · rw [Nat.toDigits_of_lt_base hlt, Nat.div_eq_of_lt hlt, Nat.mod_eq_of_lt hlt]
    rfl
  · have hdigits := Nat.toDigits_of_base_le (by decide) hge
    have hpos : 0 < (Nat.toDigits 10 (n / 10)).length := Nat.length_toDigits_pos
    have hfull : 1 + 1 - (Nat.toDigits 10 n).length = 0 := by
      rw [hdigits, List.length_append, List.length_singleton]
      omega
    rw [hfull, hdigits]
    rfl

/-- A number that is rounded to so many tenths is written with them. -/
theorem fixedText_one (hx : x.isFinite = true) (hsign : x.isNegative = false)
    (hn : divToEven (x.units * 10) one = n) :
    x.fixedText 1 = toString (n / 10) ++ "." ++ toString (n % 10) := by
  have hten : Nat.pow 10 1 = 10 := rfl
  have hall : (toString n).toList = Nat.toDigits 10 n := Nat.toList_repr
  have hlast : Nat.toDigits 10 (n % 10) = [Nat.digitChar (n % 10)] :=
    Nat.toDigits_of_lt_base (Nat.mod_lt n (by decide))
  have hlength : (Nat.toDigits 10 (n / 10) ++ [Nat.digitChar (n % 10)]).length - 1 =
      (Nat.toDigits 10 (n / 10)).length := by
    rw [List.length_append, List.length_singleton, Nat.add_sub_cancel]
  cases x with
  | finite b m p hc =>
      obtain rfl : b = false := hsign
      unfold fixedText
      dsimp only
      rw [hten, hn, hall, padded_toDigits, hlength, List.take_left, List.drop_left,
        if_neg Bool.false_ne_true, if_neg Nat.one_ne_zero, String.empty_append,
        Nat.toString_eq_ofList_toDigits, Nat.toString_eq_ofList_toDigits, hlast,
        String.append_assoc]
  | _ => cases hx

/-- A number near to so many tenths is rounded to them. -/
theorem Near.divToEven_tenths (h : Near x (n / 10) e) (he : e < 1 / 20) :
    divToEven (x.units * 10) one = n := by
  have hround := divToEven_error (a := x.units * 10) one_pos
  have hunits : ((x.units * 10 : ℕ) : ℚ) / one = x.magnitude * 10 := by
    rw [magnitude, Nat.cast_mul]
    ring
  rw [hunits] at hround
  have hrounded := abs_le.mp hround
  have hclose := abs_le.mp h.close
  refine eq_of_close (abs_lt.mpr ?_)
  constructor <;> linarith

end Binary64

namespace Duration

open Binary64 (Near slack)

variable {f fps n : ℕ} {x : Binary64} {p : ℚ} {s : String}

/-! ## Whole numbers of units -/

theorem slack_tenths : slack (10 ^ 10 + 2) ≤ 1 / 500000 := by norm_num [slack]

/-- Seconds make frames that are little more than a half off. -/
theorem framesOfSeconds_near (hx : Near x p (slack (10 ^ 9 + 2))) (hmost : fps ≤ 120)
    (hp : p * fps ≤ 10 ^ 9 + 10) :
    ∃ g : ℕ, framesOfSeconds (.float x) (.int fps) = .ok g ∧
      |(g : ℚ) - p * fps| ≤ 1 / 2 + 1 / 10000 := by
  have hmost' : (fps : ℚ) ≤ 120 := by exact_mod_cast hmost
  have hslack : slack (10 ^ 9 + 12) ≤ 1 / 5000000 := by norm_num [slack]
  obtain ⟨y, hmul, hy⟩ := Number.near_float_mul (B := 10 ^ 9 + 12) (hx.mono slack_seconds)
    (hmost.trans_lt (by norm_num)) (by linarith) (by norm_num)
  obtain ⟨g, hround, hg⟩ := hy.roundHalfUp (B := 10 ^ 9 + 12) (by linarith) (by norm_num)
  refine ⟨g, ?_, by linarith⟩
  rw [framesOfSeconds, hmul, ok_bind, hround]

/-- Seconds that are a whole number of frames make these frames. -/
theorem framesOfSeconds_eq (hx : Near x p (slack (10 ^ 9 + 2))) (hmost : fps ≤ 120)
    (hf : f ≤ 10 ^ 9) (hp : p * fps = f) : framesOfSeconds (.float x) (.int fps) = .ok f := by
  have hf' : (f : ℚ) ≤ 10 ^ 9 := by exact_mod_cast hf
  obtain ⟨g, hframes, hg⟩ := framesOfSeconds_near hx hmost (by linarith)
  rw [hp] at hg
  rw [hframes, Binary64.eq_of_close (hg.trans_lt (by norm_num))]

theorem read_count (hf : f ≤ 10 ^ 9) (fps : Number) :
    read (toString f ++ "f") fps = .ok (some f) := by
  have hf' : (f : ℚ) ≤ 10 ^ 9 := by exact_mod_cast hf
  have hround : roundHalfUp (.float (.ofInt f)) = .ok f := by
    refine (Binary64.exact_ofInt (hf.trans_lt (by norm_num))).roundHalfUp_eq (B := 10 ^ 9 + 2)
      (by linarith) (by norm_num) ?_
    rw [sub_self, abs_zero, zero_add, add_zero]
    exact slack_seconds.trans_lt (by norm_num)
  rw [read_number f .frames (by simp [small, units]), framesOf, value_toDigits, hround]
  rfl

theorem read_seconds (hfps : 1 ≤ fps) (hmost : fps ≤ 120) (hf : n * fps ≤ 10 ^ 9) :
    read (toString n ++ "s") (.int fps) = .ok (some ((n * fps : ℕ) : Int)) := by
  have hn : n ≤ n * fps := Nat.le_mul_of_pos_right n hfps
  have hexact := Binary64.exact_ofInt (k := n) ((hn.trans hf).trans_lt (by norm_num))
  have hnear : Near (.ofInt n) n (slack (10 ^ 9 + 2)) := hexact.mono (by norm_num [slack])
  rw [read_number n .seconds (by simp [small, units]), framesOf, value_toDigits,
    framesOfSeconds_eq hnear hmost hf (Nat.cast_mul n fps).symm]
  rfl

theorem read_minutes (hfps : 1 ≤ fps) (hmost : fps ≤ 120) (hf : n * (fps * 60) ≤ 10 ^ 9) :
    read (toString n ++ "m") (.int fps) = .ok (some ((n * (fps * 60) : ℕ) : Int)) := by
  have hn : n * 60 ≤ 10 ^ 9 := by
    calc n * 60 ≤ n * (fps * 60) := Nat.mul_le_mul_left n (Nat.le_mul_of_pos_left 60 hfps)
      _ ≤ 10 ^ 9 := hf
  have hn' : (n : ℚ) * 60 ≤ 10 ^ 9 := by exact_mod_cast hn
  have hseconds : (n : ℚ) * 60 * fps = (n * (fps * 60) : ℕ) := by
    push_cast
    ring
  obtain ⟨y, hmul, hy⟩ := Number.near_float_mul (k := 60) (B := 10 ^ 9 + 2)
    (Binary64.exact_ofInt (k := n) (by omega)) (by decide) (by push_cast; linarith) (by norm_num)
  rw [Nat.cast_ofNat, zero_mul, add_zero] at hy
  have hmul' : (Number.float (.ofInt n)).mul (.int 60) = .ok (.float y) := hmul
  rw [read_number n .minutes (by simp [small, units]), framesOf, value_toDigits,
    hmul', ok_bind, framesOfSeconds_eq hy hmost hf hseconds]
  rfl

/-! ## Tenths of a second -/

/-- The tenths that are shown are off by little more than a half. -/
theorem tenthsText_near (hfps : 1 ≤ fps) (hf : f ≤ 10 ^ 9) :
    ∃ n : ℕ,
      tenthsText (.int f) (.int fps) =
        .ok (toString (n / 10) ++ "." ++ toString (n % 10) ++ "s") ∧
      |(n : ℚ) - f / fps * 10| ≤ 1 / 2 + 1 / 1000 := by
  have hseconds := seconds_le hfps hf
  have hslack := slack_tenths
  have htenfold : ((f * 10 : ℕ) : ℚ) / fps = f / fps * 10 := by
    push_cast
    ring
  obtain ⟨y, hdiv, hy⟩ := Number.near_div (a := f * 10) (B := 10 ^ 10 + 2) hfps
    (by linarith) (by norm_num)
  rw [htenfold] at hy
  obtain ⟨n, hround, hn⟩ := hy.roundHalfUp (B := 10 ^ 10 + 2) (by linarith) (by norm_num)
  have hn' : (n : ℚ) / 10 ≤ 10 ^ 9 + 2 := by linarith [(abs_le.mp hn).2]
  obtain ⟨z, htenth, hz⟩ := Number.near_div (k := 10) (by decide) hn' (by norm_num)
  have hmul : (Number.int f).mul (.int 10) = .ok (.int (f * 10 : ℕ)) := by
    rw [Nat.cast_mul]
    rfl
  have htenth' : (Number.int n).div (.int 10) = .ok z := htenth
  refine ⟨n, ?_, by linarith⟩
  rw [tenthsText, hmul, ok_bind, hdiv, ok_bind, hround, ok_bind, htenth', ok_bind,
    Binary64.fixedText_one hz.finite hz.sign
      (hz.divToEven_tenths (slack_seconds.trans_lt (by norm_num)))]
  rfl

theorem read_tenths (n : ℕ) (fps : Number) :
    read (toString (n / 10) ++ "." ++ toString (n % 10) ++ "s") fps =
      (framesOfSeconds (.float (.ofRatio false n 10)) fps).map some := by
  generalize ha : Amount.mk (Nat.toDigits 10 (n / 10)) (Nat.toDigits 10 (n % 10)) = a
  have hplain : a.Plain := by
    subst ha
    exact ⟨Nat.toDigits_ne_nil, isDigit_toDigits _, isDigit_toDigits _⟩
  have hchars : toString (n / 10) ++ "." ++ toString (n % 10) ++ "s" =
      String.ofList (a.chars ++ ['s']) := by
    subst ha
    rw [← String.toList_inj, String.toList_ofList, Amount.chars, if_neg Nat.toDigits_ne_nil]
    simp [Nat.toString_eq_repr]
  have hvalue : a.value = .ofRatio false n 10 := by
    subst ha
    have hlength : (Nat.toDigits 10 (n % 10)).length = 1 := by
      rw [Nat.toDigits_of_lt_base (Nat.mod_lt n (by decide)), List.length_singleton]
    rw [Amount.value, natOfDigits_append, natOfDigits_toDigits, natOfDigits_toDigits, hlength,
      Nat.pow_one, Nat.div_add_mod', Binary64.ofDecimal_eq]
    simp
  rw [read, hchars, parts?_plain .seconds hplain (by simp [small, units])]
  show (framesOf a .seconds fps).map some = _
  rw [framesOf, hvalue]

/-- Tenths that are little more than a half off make frames that are a twentieth of a second and a
half frame off at most. -/
theorem frames_of_tenths {g : ℕ} (hfps : 1 ≤ fps) (hmost : fps ≤ 120)
    (hn : |(n : ℚ) - f / fps * 10| ≤ 1 / 2 + 1 / 1000)
    (hg : |(g : ℚ) - n / 10 * fps| ≤ 1 / 2 + 1 / 10000) :
    |(g : ℚ) - f| ≤ fps / 20 + 1 / 2 := by
  have hmost' : (fps : ℚ) ≤ 120 := by exact_mod_cast hmost
  -- the floats add less than the least that an integer could
  have hlt : 20 * |(g : ℚ) - f| < fps + 10 + 1 := by
    have htriangle := abs_sub_le (g : ℚ) (n / 10 * fps) f
    have hshown := frames_of_parts hfps (by norm_num) hn
    linarith
  have hlt' : 20 * |(g : ℤ) - f| < fps + 10 + 1 := by exact_mod_cast hlt
  have hle : (20 : ℚ) * |(g : ℚ) - f| ≤ fps + 10 := by exact_mod_cast Int.le_of_lt_add_one hlt'
  linarith

/-! ## Back and forth -/

/-- What was shown for frames gives them back, up to a twentieth of a second and a half frame if it
had to be rounded. -/
structure Restores (fps f g : Int) : Prop where
  exact : f = 0 ∨ f < fps ∨ fps ∣ f → g = f
  close : |((g - f : Int) : ℚ)| ≤ fps / 20 + 1 / 2

theorem Restores.refl (fps : ℕ) (f : Int) : Restores fps f f where
  exact _ := rfl
  close := by
    rw [sub_self, Int.cast_zero, abs_zero]
    positivity

/-- What shows a whole number of a unit is read as it is. -/
theorem read_whole {q size : Int} {unit : Char} (hfps : 1 ≤ fps) (hmost : fps ≤ 120)
    (hf : f ≤ 10 ^ 9) (hunit : (unit, size) ∈ unitsAt fps) (hq : (f : Int) = q * size)
    (hs : s.toList = (toString q).toList ++ [unit]) : read s (.int fps) = .ok (some f) := by
  have hsize : 0 < size := by
    rcases unitsAt_cases hunit with ⟨-, rfl⟩ | ⟨-, rfl⟩ <;> omega
  have hnonneg : 0 ≤ q := by
    by_contra hneg
    have := Int.mul_neg_of_neg_of_pos (Int.not_le.mp hneg) hsize
    omega
  lift q to ℕ using hnonneg
  have hs : s = toString q ++ String.ofList [unit] := by
    rw [← String.toList_inj, hs, String.toList_append, String.toList_ofList]
    rfl
  rcases unitsAt_cases hunit with ⟨rfl, rfl⟩ | ⟨rfl, rfl⟩
  · obtain rfl : f = q * (fps * 60) := by exact_mod_cast hq
    rw [hs]
    exact read_minutes hfps hmost hf
  · obtain rfl : f = q * fps := by exact_mod_cast hq
    rw [hs]
    exact read_seconds hfps hmost hf

/-- Frames that are shown rounded make a second and more, and no whole number of seconds. -/
theorem Rounded.inexact (h : Rounded (.int fps) f) (hfps : 1 ≤ fps) (hmost : fps ≤ 120) :
    ¬ ((f : Int) = 0 ∨ (f : Int) < fps ∨ (fps : Int) ∣ f) := by
  rintro (hzero | hlt | hdvd)
  · exact h.nonzero hzero
  · have hpos : (0 : ℚ) < fps := by exact_mod_cast hfps
    have hmost' : (fps : ℚ) ≤ 120 := by exact_mod_cast hmost
    have hlt' : (f : ℚ) + 1 ≤ fps := by exact_mod_cast hlt
    have hbelow : (f : ℚ) / fps ≤ 119 / 120 := by
      rw [div_le_div_iff₀ hpos (by norm_num)]
      linarith
    obtain ⟨q, hq, hsecond⟩ := h.second
    obtain ⟨y, hy, hnear⟩ := Number.near_div (B := 1) hfps (hbelow.trans (by norm_num))
      (by norm_num)
    cases hq.symm.trans hy
    refine hsecond (hnear.compareInt?_eq_lt (n := 1) ?_)
    have hslack : slack 1 < 1 / 120 := by norm_num [slack]
    push_cast
    linarith
  · exact h.broken fps rfl hdvd

/-- What is written for frames is read as frames that they can be restored from. -/
theorem read_of_written {t : List Char} {unit : Char} (hfps : 1 ≤ fps) (hmost : fps ≤ 120)
    (hf : f ≤ 10 ^ 9) (htext : text (.int f) (.int fps) = .ok s) (hs : s.toList = t ++ [unit])
    (h : Written (.int fps) (.int f) f t unit) :
    ∃ g, read s (.int fps) = .ok (some g) ∧ Restores fps f g := by
  cases h with
  | frames ht =>
      have hs : s = toString f ++ "f" := by
        rw [← String.toList_inj, hs, ht, String.toList_append]
        split
        · rename_i hzero
          obtain rfl : f = 0 := by exact_mod_cast hzero
          rfl
        · rfl
      exact ⟨f, by rw [hs, read_count hf], .refl fps f⟩
  | whole hk hunit hq ht =>
      cases hk
      subst ht
      exact ⟨f, read_whole hfps hmost hf hunit hq hs, .refl fps f⟩
  | rounded hrounded =>
      obtain ⟨n, htenths, hn⟩ := tenthsText_near hfps hf
      rw [text_of_rounded rfl hrounded, htenths] at htext
      cases htext
      have hmost' : (fps : ℚ) ≤ 120 := by exact_mod_cast hmost
      have hf' : (f : ℚ) ≤ 10 ^ 9 := by exact_mod_cast hf
      have hseconds : ((n : ℕ) : ℚ) / (10 : ℕ) ≤ 10 ^ 9 + 2 := by
        push_cast
        linarith [(abs_le.mp hn).2, seconds_le hfps hf]
      have hframes : (n : ℚ) / 10 * fps ≤ 10 ^ 9 + 10 := by
        linarith [(abs_le.mp (frames_of_parts hfps (by norm_num) hn)).2]
      obtain ⟨g, hg, hclose⟩ := framesOfSeconds_near
        (Binary64.near_ofRatio (by decide) hseconds (by norm_num)) hmost hframes
      refine ⟨g, ?_, fun h => absurd h (hrounded.inexact hfps hmost), ?_⟩
      · rw [read_tenths, hg]
        rfl
      · rw [Int.cast_sub, Int.cast_natCast, Int.cast_natCast, Int.cast_natCast]
        exact frames_of_tenths hfps hmost hn hclose

/-- Up to 120 frames a second and a count of `10 ^ 9`, what is shown for frames is read as frames.
These are the same, unless they make more than a second and no whole number of seconds; then they
are off by a twentieth of a second and a half frame at most. -/
theorem shown_is_read {f fps : Int} (hfps : 1 ≤ fps) (hmost : fps ≤ 120) (hf : 0 ≤ f)
    (hle : f ≤ 10 ^ 9) :
    ∃ s g, textAt fps (.int f) = .ok s ∧ read s (.int fps) = .ok (some g) ∧
      (f = 0 ∨ f < fps ∨ fps ∣ f → g = f) ∧ |((g - f : Int) : ℚ)| ≤ fps / 20 + 1 / 2 := by
  lift f to ℕ using hf
  lift fps to ℕ using Int.le_of_lt hfps
  have hfps : 1 ≤ fps := by exact_mod_cast hfps
  have hmost : fps ≤ 120 := by exact_mod_cast hmost
  have hle : f ≤ 10 ^ 9 := by exact_mod_cast hle
  have hrange : ((f : Int) * 10).natAbs * Binary64.one ≤ Binary64.greatest := by
    have htop : 10 ^ 10 * Binary64.one ≤ Binary64.greatest := by decide +kernel
    exact (Nat.mul_le_mul_right Binary64.one (by omega)).trans htop
  have hrate : (fps : Int) ≠ 0 := by omega
  obtain ⟨s, hs⟩ := exists_textAt hrate hrange
  obtain ⟨t, unit, hchars, hwritten⟩ := written_of_text (v := .int f) rfl hs
  obtain ⟨g, hread, hexact, hclose⟩ := read_of_written hfps hmost hle hs hchars hwritten
  exact ⟨s, g, hs, hread, hexact, hclose⟩

/-- A tie of tenths, at the highest rate: half a tenth more is read. -/
theorem tie_is_read :
    (1 : Int) ≤ 120 ∧ (120 : Int) ≤ 120 ∧ (0 : Int) ≤ 126 ∧ (126 : Int) ≤ 10 ^ 9 ∧
      ∃ s g, textAt 120 (.int 126) = .ok s ∧ read s (.int 120) = .ok (some g) ∧
        ((126 : Int) = 0 ∨ (126 : Int) < 120 ∨ (120 : Int) ∣ 126 → g = 126) ∧
        |((g - 126 : Int) : ℚ)| ≤ (120 : Int) / 20 + 1 / 2 :=
  ⟨by decide, by decide, by decide, by decide,
    shown_is_read (by decide : (1 : Int) ≤ 120) (by decide) (by decide : (0 : Int) ≤ 126)
      (by decide)⟩

/-- The bound is nearly met. -/
example : textAt 120 (.int 126) = .ok "1.1s" ∧ read "1.1s" (.int 120) = .ok (some (126 + 6)) := by
  constructor
  all_goals decide +kernel

end Duration

end Montage
