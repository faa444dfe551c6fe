/-
# Durations beyond the range of floats

What a converter does not take it refuses, and the refusal becomes a problem that
names the option.  One kind of value gets past this: the frames of a duration are
rounded to an integer, and an infinite number of frames overflows there.

    converter                          fails with
    a duration, above zero or not      a bad value, or an overflow
    any other of the tables            a bad value

So the arguments of a built-in command are read, or refused as invalid, or a duration
that is `TooLong` stands behind segments of the line that can be read, and the line
`Overruns`.  A duration is too long by its amount and its scale alone: `unrounded` is
the number of frames in floating point, and rounding overflows exactly if that is not
finite (`Comes.framesOf`).
-/
import Mathlib.Data.List.TakeWhile
import Montage.Command.Builtin
import Montage.Proofs.Decimal
import Montage.Proofs.DurationText
import Montage.Proofs.Finite
import Montage.Proofs.Segments

namespace Montage

/-! ## Floats that are numbers -/

namespace Binary64

variable {x y : Binary64} {fps : Int}

/-- A product with a finite number other than zero is a number. -/
theorem mul_ne_nan (hx : x ≠ nan) (hy : y.isFinite = true) (hzero : y.isZero = false) :
    x.mul y ≠ nan := by
  cases y with
  | finite =>
      cases x with
      | nan => exact absurd rfl hx
      | infinite a =>
          unfold mul
          simp only [hzero, Bool.false_eq_true, if_false]
          intro h
          cases h
      | finite =>
          unfold mul
          exact round_ne_nan _ _ _
  | _ => cases hy

/-- A quotient by a finite number other than zero is a number. -/
theorem div_ne_nan (hx : x ≠ nan) (hy : y.isFinite = true) (hzero : y.isZero = false) :
    x.div y ≠ nan := by
  cases y with
  | finite =>
      cases x with
      | nan => exact absurd rfl hx
      | infinite a => exact nofun
      | finite =>
          unfold div
          simp only [hzero, Bool.false_eq_true, if_false]
          exact round_ne_nan _ _ _
  | _ => cases hy

theorem isFinite_mul_right (hy : y.isFinite = false) : (x.mul y).isFinite = false := by
  cases y with
  | finite => cases hy
  | nan => cases x <;> rfl
  | infinite b =>
      cases x with
      | finite =>
          unfold mul
          dsimp only
          split <;> rfl
      | _ => rfl

theorem form_one : Form one := ⟨2 ^ 52, 1022, by decide +kernel⟩

/-- A positive integer is not rounded to zero. -/
theorem isZero_ofInt (hfps : 1 ≤ fps) : (ofInt fps).isZero = false := by
  have hmono : nearest one 1 ≤ nearest (fps.natAbs * one) 1 := by
    refine nearest_mono Nat.one_pos Nat.one_pos ?_
    exact Nat.mul_le_mul_right 1 (Nat.le_mul_of_pos_left one (by omega))
  rw [form_one.nearest] at hmono
  have hone := one_pos
  unfold ofInt ofRatio
  rcases Nat.lt_or_ge (nearest (fps.natAbs * one) 1) (2 ^ 2098) with hlt | hge
  · obtain ⟨m, p, hc, hround, hunits⟩ := round_of_lt (decide (fps < 0)) hlt
    rw [hround]
    have hm : m ≠ 0 := by
      rintro rfl
      omega
    simpa [isZero] using hm
  · rw [round_of_le _ hge]
    rfl

theorem isFinite_add_of_nearest (hx : x.isFinite = true) (hy : y.isFinite = true)
    (h : nearest (x.signedUnits + y.signedUnits).natAbs 1 < 2 ^ 2098) :
    (x.add y).isFinite = true := by
  cases x with
  | finite =>
      cases y with
      | finite =>
          unfold add
          dsimp only
          split
          · rfl
          · obtain ⟨m, p, hc, hround, -⟩ := round_of_lt _ h
            rw [hround]
            rfl
      | _ => cases hy
  | _ => cases hx

/-- The greatest magnitude. -/
def greatest : Nat := (2 ^ 53 - 1) * 2 ^ 2045

theorem units_le_greatest (hx : x.isFinite = true) : x.units ≤ greatest := by
  obtain ⟨m, p, ⟨hm, -, hp⟩, hunits⟩ := form_units hx
  rw [hunits]
  exact Nat.mul_le_mul (Nat.le_sub_one_of_lt hm) (two_pow_le hp)

theorem form_greatest : Form greatest := by
  unfold greatest
  exact ⟨2 ^ 53 - 1, 2045, by decide +kernel, rfl⟩

theorem one_le_greatest : one ≤ greatest := by
  obtain ⟨hfinite, hunits⟩ := one_spec
  have hle := units_le_greatest hfinite
  rwa [hunits] at hle

/-- A half is too little to lead from the greatest number beyond the range of floats. -/
theorem nearest_greatest_half :
    nearest (greatest + Duration.half.units) 1 < 2 ^ 2098 := by decide +kernel

theorem isFinite_half : Duration.half.isFinite = true := by decide +kernel

theorem isFinite_add_half (hx : x.isFinite = true) : (x.add Duration.half).isFinite = true := by
  have hle := units_le_greatest hx
  have hxabs := natAbs_signedUnits x
  have hhalf := natAbs_signedUnits Duration.half
  refine isFinite_add_of_nearest hx isFinite_half
    (lt_of_le_of_lt (nearest_mono Nat.one_pos Nat.one_pos ?_) nearest_greatest_half)
  omega

theorem add_half_ne_nan (hx : x ≠ nan) : x.add Duration.half ≠ nan := by
  have hhalf := isFinite_half
  cases x with
  | nan => exact absurd rfl hx
  | infinite a =>
      cases h : Duration.half with
      | finite => exact nofun
      | _ =>
          rw [h] at hhalf
          cases hhalf
  | finite n m p hc =>
      intro hnan
      have hfinite := isFinite_add_half (show (finite n m p hc).isFinite = true from rfl)
      rw [hnan] at hfinite
      cases hfinite

end Binary64

/-! ## Frames -/

namespace Number

variable {x : Binary64} {n : Int}

theorem toFloat_of_isFinite (hn : (Binary64.ofInt n).isFinite = true) :
    toFloat (.int n) = .ok (.ofInt n) := by
  unfold toFloat
  simp only [hn, if_true]

theorem toFloat_overflows (hn : (Binary64.ofInt n).isFinite = false) :
    toFloat (.int n) = .error .overflow := by
  unfold toFloat
  simp only [hn, Bool.false_eq_true, if_false]

theorem float_mul_int (hn : (Binary64.ofInt n).isFinite = true) :
    (float x).mul (.int n) = .ok (.float (x.mul (.ofInt n))) := by
  unfold mul combine
  dsimp only
  rw [toFloat_of_isFinite hn]
  rfl

theorem float_mul_overflows (hn : (Binary64.ofInt n).isFinite = false) :
    (float x).mul (.int n) = .error .overflow := by
  unfold mul combine
  dsimp only
  rw [toFloat_overflows hn]
  rfl

theorem float_div_int (hn : (Binary64.ofInt n).isFinite = true)
    (hzero : (Binary64.ofInt n).isZero = false) :
    (float x).div (.int n) = .ok (x.div (.ofInt n)) := by
  unfold div
  dsimp only
  rw [toFloat_of_isFinite hn, toFloat, ok_bind, ok_bind, hzero, if_neg Bool.false_ne_true]
  rfl

theorem int_div_int {a b : Int} (hb : b ≠ 0)
    (h : (Binary64.ofRatio (decide (a < 0) != decide (b < 0)) a.natAbs b.natAbs).isFinite = true) :
    (int a).div (int b) =
      .ok (Binary64.ofRatio (decide (a < 0) != decide (b < 0)) a.natAbs b.natAbs) := by
  unfold div
  dsimp only
  rw [if_neg hb, if_pos h]

end Number

namespace Duration

variable {a : Amount} {scale : Scale} {x : Binary64} {fps : Int} {raw : String}

/-- The frames of an amount, before they are rounded. -/
def unrounded (a : Amount) (scale : Scale) (rate : Binary64) : Binary64 :=
  match scale with
  | .frames => a.value
  | .milliseconds => (a.value.div (.ofInt 1000)).mul rate
  | .seconds => a.value.mul rate
  | .minutes => (a.value.mul (.ofInt 60)).mul rate

/-- The text is a duration whose frames are beyond the range of floats. -/
def TooLong (raw : String) (fps : Int) : Prop :=
  ∃ a scale, parts? raw = some (a, scale) ∧ (unrounded a scale (.ofInt fps)).isFinite = false

/-- What becomes of a float that is to be an integer: one, or an overflow if it is not finite. -/
inductive Comes (x : Binary64) : Except Fault Int → Prop
  | integer (n : Int) : x.isFinite = true → Comes x (.ok n)
  | overflow : x.isFinite = false → Comes x (.error .overflow)

theorem Comes.roundHalfUp (hx : x ≠ .nan) : Comes x (roundHalfUp (.float x)) := by
  have hrounds : Duration.roundHalfUp (.float x) = Number.floor (x.add half) := rfl
  rw [hrounds]
  unfold Number.floor Number.integerPart Binary64.floor?
  by_cases hfinite : x.isFinite = true
  · rw [if_pos (Binary64.isFinite_add_half hfinite)]
    exact .integer _ hfinite
  · have hfinite : x.isFinite = false := by simpa using hfinite
    have hnan : (x.add half).isNaN = false := by
      have hne := Binary64.add_half_ne_nan hx
      cases h : x.add half with
      | nan => exact absurd h hne
      | _ => rfl
    rw [if_neg (by simp [Binary64.isFinite_add hfinite]), hnan]
    exact .overflow hfinite

/-- A number of seconds at a frame rate; a rate beyond the range of floats overflows as well. -/
theorem Comes.framesOfSeconds (hx : x ≠ .nan) (hfps : 1 ≤ fps) :
    Comes (x.mul (.ofInt fps)) (framesOfSeconds (.float x) (.int fps)) := by
  by_cases hrate : (Binary64.ofInt fps).isFinite = true
  · rw [Duration.framesOfSeconds, Number.float_mul_int hrate]
    exact .roundHalfUp (Binary64.mul_ne_nan hx hrate (Binary64.isZero_ofInt hfps))
  · have hrate : (Binary64.ofInt fps).isFinite = false := by simpa using hrate
    rw [Duration.framesOfSeconds, Number.float_mul_overflows hrate]
    exact .overflow (Binary64.isFinite_mul_right hrate)

/-- A duration has frames exactly if they are in the range of floats before they are rounded. -/
theorem Comes.framesOf (hfps : 1 ≤ fps) :
    Comes (unrounded a scale (.ofInt fps)) (framesOf a scale (.int fps)) := by
  have hvalue : a.value ≠ .nan := Binary64.ofDecimal_ne_nan _ _ _
  cases scale with
  | frames => exact .roundHalfUp hvalue
  | seconds => exact .framesOfSeconds hvalue hfps
  | milliseconds =>
      have hthousand : (Binary64.ofInt 1000).isFinite = true ∧
          (Binary64.ofInt 1000).isZero = false := by decide +kernel
      have hframes : Duration.framesOf a .milliseconds (.int fps) =
          Duration.framesOfSeconds (.float (a.value.div (.ofInt 1000))) (.int fps) := by
        rw [Duration.framesOf, framesOfMs, Number.float_div_int hthousand.1 hthousand.2, ok_bind,
          Duration.framesOfSeconds]
      rw [hframes]
      exact .framesOfSeconds (Binary64.div_ne_nan hvalue hthousand.1 hthousand.2) hfps
  | minutes =>
      have hsixty : (Binary64.ofInt 60).isFinite = true ∧
          (Binary64.ofInt 60).isZero = false := by decide +kernel
      have hframes : Duration.framesOf a .minutes (.int fps) =
          Duration.framesOfSeconds (.float (a.value.mul (.ofInt 60))) (.int fps) := by
        rw [Duration.framesOf, Number.float_mul_int hsixty.1, ok_bind]
      rw [hframes]
      exact .framesOfSeconds (Binary64.mul_ne_nan hvalue hsixty.1 hsixty.2) hfps

/-- Reading a text ends in an overflow exactly if it is a duration that is too long. -/
theorem read_cases (hfps : 1 ≤ fps) (raw : String) :
    (∃ n?, read raw (.int fps) = .ok n?) ∧ ¬ TooLong raw fps ∨
      read raw (.int fps) = .error .overflow ∧ TooLong raw fps := by
  unfold read
  cases hparts : parts? raw with
  | none =>
      refine .inl ⟨⟨none, rfl⟩, ?_⟩
      rintro ⟨a, scale, h, -⟩
      cases hparts.symm.trans h
  | some amount =>
      obtain ⟨a, scale⟩ := amount
      have hcomes : Comes (unrounded a scale (.ofInt fps)) (framesOf a scale (.int fps)) :=
        .framesOf hfps
      generalize hx : unrounded a scale (.ofInt fps) = x at hcomes
      generalize hn : framesOf a scale (.int fps) = r at hcomes
      cases hcomes with
      | integer n hfinite =>
          refine .inl ⟨⟨some n, ?_⟩, ?_⟩
          · simp only [hn, Except.map]
          · rintro ⟨a', scale', h, hinfinite⟩
            cases hparts.symm.trans h
            rw [hx, hfinite] at hinfinite
            cases hinfinite
      | overflow hinfinite =>
          refine .inr ⟨?_, a, scale, hparts, hx ▸ hinfinite⟩
          simp only [hn, Except.map]

/-- So many digits are a duration that is too long at any frame rate. -/
theorem tooLong_of_long {c : Char} {r : List Char} (hc : c ≠ '0')
    (hdigits : ∀ d ∈ c :: r, Json.isDigit d = true) (hlong : 342 ≤ r.length) (fps : Int) :
    TooLong (String.ofList (c :: r)) fps := by
  have hvalue : Amount.value ⟨c :: r, []⟩ = .infinite false := by
    have hlarge := pow_le_natOfDigits hc (hdigits c List.mem_cons_self) r
    unfold Amount.value
    rw [List.append_nil]
    exact Binary64.ofDecimal_of_long (by omega) hlarge false
  refine ⟨⟨c :: r, []⟩, .milliseconds, parts?_digits (List.cons_ne_nil c r) hdigits, ?_⟩
  unfold unrounded
  rw [hvalue]
  exact Binary64.isFinite_mul (Binary64.isFinite_div rfl)

end Duration

/-! ## Converters -/

namespace Converter

variable {c : Converter} {raw : String} {fps : Int} {f : Fault}

/-- What the converter does not take is a bad value. -/
def Refuses (c : Converter) : Prop :=
  ∀ raw fps f, c raw fps = .error f → ∃ reason, f = .badValue reason

/-- The converter reads durations. -/
def Timed (c : Converter) : Prop := c = duration ∨ c = positiveDuration

theorem exists_of_refuse {α : Type} {reason : String}
    (h : (refuse reason : Except Fault α) = .error f) : ∃ reason, f = .badValue reason := by
  cases h
  exact ⟨_, rfl⟩

/-- Frames that were read are refused or taken. -/
theorem exists_of_frames {n? : Option Int} {reason : String} {tooFew : Int → Prop}
    [DecidablePred tooFew]
    (h : (match n? with
      | none => refuse reason
      | some n => if tooFew n then refuse reason else pure (.int n)) =
        (.error f : Except Fault Value)) :
    ∃ reason, f = .badValue reason := by
  cases n? with
  | none => exact exists_of_refuse h
  | some n =>
      dsimp only at h
      split at h
      · exact exists_of_refuse h
      · cases h

theorem refuses_integer (h : integer raw = .error f) : ∃ reason, f = .badValue reason := by
  unfold integer unreadable at h
  split at h
  · exact exists_of_refuse h
  · split at h
    · cases h
    · cases h
      exact ⟨_, rfl⟩

theorem refuses_decimal (h : decimal raw = .error f) : ∃ reason, f = .badValue reason := by
  unfold decimal at h
  split at h
  · cases h
  · exact exists_of_refuse h

@[simp] theorem refuses_text : Refuses text := nofun

@[simp] theorem refuses_whole : Refuses whole := by
  intro raw fps f h
  exact refuses_integer (map_eq_error.mp h)

@[simp] theorem refuses_positiveWhole : Refuses positiveWhole := by
  intro raw fps f h
  rcases bind_eq_error.mp h with h | ⟨n, -, h⟩
  · exact refuses_integer h
  · split at h
    · exact exists_of_refuse h
    · cases h

@[simp] theorem refuses_wholeBetween (low high : Number) : Refuses (wholeBetween low high) := by
  intro raw fps f h
  rcases bind_eq_error.mp h with h | ⟨n, -, h⟩
  · exact refuses_integer h
  · split at h
    · exact exists_of_refuse h
    · cases h

@[simp] theorem refuses_number : Refuses number := by
  intro raw fps f h
  exact refuses_decimal (map_eq_error.mp h)

@[simp] theorem refuses_positiveNumber : Refuses positiveNumber := by
  intro raw fps f h
  rcases bind_eq_error.mp h with h | ⟨x, -, h⟩
  · exact refuses_decimal h
  · split at h
    · cases h
    · exact exists_of_refuse h

/-- The bounds are floats, so the reason can be told. -/
theorem refuses_numberBetween (low high : Binary64) :
    Refuses (numberBetween (.float low) (.float high)) := by
  intro raw fps f h
  unfold numberBetween at h
  split at h
  · exact exists_of_refuse h
  · split at h
    · exact exists_of_refuse h
    · cases h

@[simp] theorem refuses_volume : Refuses volume := refuses_numberBetween _ _

@[simp] theorem refuses_opacity : Refuses opacity := refuses_numberBetween _ _

@[simp] theorem refuses_toneFrequency : Refuses toneFrequency := refuses_numberBetween _ _

@[simp] theorem refuses_truth : Refuses truth := by
  intro raw fps f h
  unfold truth at h
  split at h
  · cases h
  · split at h
    · cases h
    · exact exists_of_refuse h

theorem isBadInput_of_normalize {label : String}
    (h : Keyword.normalize label (.text raw) = .error f) : f.isBadInput = true := by
  unfold Keyword.normalize at h
  dsimp only at h
  split at h
  · cases h
    rfl
  · split at h
    · cases h
      rfl
    · split at h
      · cases h
        rfl
      · cases h

@[simp] theorem refuses_textAlign : Refuses textAlign := by
  intro raw fps f h
  have hbad {f : Fault} (h : TextAlign.read (.text raw) = .error f) : f.isBadInput = true := by
    rcases bind_eq_error.mp h with h | ⟨word, -, h⟩
    · exact isBadInput_of_normalize h
    · split at h
      · cases h
      · cases h
        rfl
  unfold textAlign choice at h
  split at h
  · cases h
  · rename_i hread
    rw [if_pos (hbad (map_eq_error.mp hread))] at h
    exact exists_of_refuse h

@[simp] theorem refuses_color : Refuses color := by
  intro raw fps f h
  unfold color at h
  split at h
  · cases h
  · exact exists_of_refuse h

@[simp] theorem refuses_position : Refuses position := by
  intro raw fps f h
  unfold position at h
  dsimp only at h
  split at h
  · exact exists_of_refuse h
  · cases h

/-- A converter of durations overflows on those that are too long. -/
theorem Timed.overflows (hc : c.Timed) (hfps : 1 ≤ fps) (h : Duration.TooLong raw fps) :
    c raw (.int fps) = .error .overflow := by
  have hread : Duration.read raw (.int fps) = .error .overflow := by
    rcases Duration.read_cases hfps raw with ⟨-, hnot⟩ | ⟨hread, -⟩
    · exact absurd h hnot
    · exact hread
  rcases hc with rfl | rfl
  · unfold duration
    rw [hread]
    rfl
  · unfold positiveDuration
    rw [hread]
    rfl

/-- A converter of durations refuses all others that it does not take. -/
theorem Timed.refuses (hc : c.Timed) (hfps : 1 ≤ fps) (h : ¬ Duration.TooLong raw fps)
    (hf : c raw (.int fps) = .error f) : ∃ reason, f = .badValue reason := by
  obtain ⟨n?, hread⟩ : ∃ n?, Duration.read raw (.int fps) = .ok n? := by
    rcases Duration.read_cases hfps raw with ⟨hread, -⟩ | ⟨-, hlong⟩
    · exact hread
    · exact absurd hlong h
  rcases hc with rfl | rfl
  · unfold duration at hf
    rw [hread, ok_bind] at hf
    exact exists_of_frames hf
  · unfold positiveDuration at hf
    rw [hread, ok_bind] at hf
    exact exists_of_frames hf

end Converter

/-! ## Tables -/

/-- The converter of the option reads durations, or refuses what it does not take. -/
def CommandOption.Guarded (o : CommandOption) : Prop :=
  ∀ c, o.kind = .value c → c.Timed ∨ c.Refuses

namespace CommandOption

@[simp] theorem guarded_taking {name long short hint : String} {c : Converter} (h : c.Refuses) :
    (taking name long short c hint).Guarded := by
  rintro _ ⟨⟩
  exact .inr h

@[simp] theorem guarded_duration (name long short hint : String) :
    (taking name long short Converter.duration hint).Guarded := by
  rintro _ ⟨⟩
  exact .inl (.inl rfl)

@[simp] theorem guarded_positiveDuration (name long short hint : String) :
    (taking name long short Converter.positiveDuration hint).Guarded := by
  rintro _ ⟨⟩
  exact .inl (.inr rfl)

@[simp] theorem guarded_flag (name long short : String) : (flag name long short).Guarded := nofun

@[simp] theorem guarded_id : CommandOption.id.Guarded := by simp [CommandOption.id]

@[simp] theorem guarded_pageId : pageId.Guarded := by simp [pageId]

@[simp] theorem guarded_yes : yes.Guarded := by simp [yes]

@[simp] theorem guarded_src : src.Guarded := by simp [src]

@[simp] theorem guarded_length (hint : String) : (length hint).Guarded := by simp [length]

@[simp] theorem guarded_delay (hint : String) : (delay hint).Guarded := by simp [delay]

end CommandOption

/-- All converters of the table read durations, or refuse what they do not take. -/
def Grammar.Guarded (g : Grammar) : Prop := ∀ o ∈ g.options, o.Guarded

namespace Builtin

/-- What the built-in commands accept, in their order. -/
def grammars : List Grammar := [
  Tracks.createGrammar, Tracks.changeGrammar, Tracks.deleteGrammar,
  Elements.textGrammar, Elements.mediaGrammar "new-image", Elements.mediaGrammar "new-video",
  Elements.changeGrammar, Elements.deleteGrammar,
  Notes.createGrammar, Notes.changeGrammar, Notes.deleteGrammar, Notes.listGrammar,
  Pages.createGrammar, Pages.changeGrammar, Pages.deleteGrammar, Pages.displayGrammar,
  Settings.displayGrammar, Settings.changeGrammar, Settings.listFilesGrammar,
  Settings.zoomGrammar, helpGrammar]

theorem grammars_names : grammars.map (·.command) = commands.map (·.name) := by decide +kernel

theorem grammars_wellFormed : ∀ g ∈ grammars, g.WellFormed := by decide +kernel

theorem grammars_guarded : ∀ g ∈ grammars, g.Guarded := by
  simp [grammars, Grammar.Guarded, Tracks.createGrammar, Tracks.changeGrammar,
    Tracks.deleteGrammar, Tracks.valueOptions, Elements.textGrammar, Elements.mediaGrammar,
    Elements.changeGrammar, Elements.deleteGrammar, Elements.geometryOptions,
    Elements.textOptions, Elements.timingOptions, Elements.copyOption, Notes.createGrammar,
    Notes.changeGrammar, Notes.deleteGrammar, Notes.listGrammar, Notes.textOption,
    Notes.timeOption, Pages.createGrammar, Pages.changeGrammar, Pages.deleteGrammar,
    Pages.displayGrammar, Settings.displayGrammar, Settings.changeGrammar,
    Settings.listFilesGrammar, Settings.zoomGrammar, helpGrammar]

end Builtin

/-! ## Lines -/

namespace Grammar

variable {g : Grammar} {fps : Int} {tokens : List String}

/-- Behind segments of the line, which can be read, stands a duration that is too long. -/
def Overruns (g : Grammar) (fps : Int) (tokens : List String) : Prop :=
  ∃ ss o c token raw rest, g.Allows (.int fps) ss ∧
    Segment.line ss ++ token :: raw :: rest = tokens ∧ o ∈ g.options ∧ token ∈ o.aliases ∧
    o.kind = .value c ∧ c.Timed ∧ Duration.TooLong raw fps

theorem Overruns.overflows (hg : g.WellFormed) (hfps : 1 ≤ fps) (h : g.Overruns fps tokens) :
    g.parse tokens (.int fps) = .error .overflow := by
  obtain ⟨ss, o, c, token, raw, rest, hallows, hjoined, ho, hmem, hkind, htimed, hlong⟩ := h
  exact parse_of_offends hg hallows hjoined
    (.failed ho hmem hkind (htimed.overflows hfps hlong) rfl)

/-- Where a line offends without a duration that is too long, the problem is one of validation. -/
theorem validation_of_offends (hguarded : g.Guarded) (hfps : 1 ≤ fps) {ss : List Segment}
    {rest : List String} {f : Fault} (hallows : g.Allows (.int fps) ss)
    (hjoined : Segment.line ss ++ rest = tokens) (hnot : ¬ g.Overruns fps tokens)
    (hf : g.Offends (.int fps) ss rest f) : ∃ p, f = .problem p ∧ p.kind = .validation := by
  cases hf with
  | unknown | unexpected | missing | refused => exact ⟨_, rfl, rfl⟩
  | @failed o c token raw f rest ho hmem hkind hv hbad =>
      have hrefused : ∃ reason, f = .badValue reason := by
        rcases hguarded o ho c hkind with htimed | hrefuses
        · refine htimed.refuses hfps (fun hlong => hnot ?_) hv
          exact ⟨ss, o, c, token, raw, rest, hallows, hjoined, ho, hmem, hkind, htimed, hlong⟩
        · exact hrefuses _ _ _ hv
      obtain ⟨reason, rfl⟩ := hrefused
      cases hbad

/-- The arguments of a built-in command at a frame rate of at least one: a line is read or refused
with a problem of validation, whatever its tokens are, unless it overruns.  The frames of a
duration that is too long overflow, and nothing turns the overflow into a problem. -/
theorem parse_unless_overruns (hg : g ∈ Builtin.grammars) (hfps : 1 ≤ fps)
    (tokens : List String) :
    (¬ g.Overruns fps tokens →
      (∃ args, g.parse tokens (.int fps) = .ok args) ∨
        ∃ p, g.parse tokens (.int fps) = .error (.problem p) ∧ p.kind = .validation) ∧
    (g.Overruns fps tokens → g.parse tokens (.int fps) = .error .overflow) := by
  have hformed := Builtin.grammars_wellFormed g hg
  refine ⟨fun hnot => ?_, Overruns.overflows hformed hfps⟩
  rcases splits_or_offends hformed (.int fps) tokens with ⟨ss, h⟩ | ⟨ss, rest, f, h, hjoined, hf⟩
  · exact .inl ⟨_, parse_of_splits hformed h⟩
  · obtain ⟨p, rfl, hp⟩ :=
      validation_of_offends (Builtin.grammars_guarded g hg) hfps h hjoined hnot hf
    exact .inr ⟨p, parse_of_offends hformed h hjoined hf, hp⟩

/-- A duration of four hundred digits. -/
def endless : String := String.ofList ('9' :: List.replicate 399 '9')

theorem endless_tooLong (fps : Int) : Duration.TooLong endless fps := by
  refine Duration.tooLong_of_long (by decide) (fun d hd => ?_) ?_ fps
  · have hd : d = '9' := by
      rcases List.mem_cons.mp hd with hd | hd
      · exact hd
      · exact List.eq_of_mem_replicate hd
    rw [hd]
    decide
  · rw [List.length_replicate]
    decide

theorem endless_overruns : Tracks.createGrammar.Overruns 30 ["--duration", endless] :=
  ⟨[], .length "10s", Converter.positiveDuration, "--duration", endless, [], .nil, rfl,
    by simp [Tracks.createGrammar, Tracks.valueOptions], by decide, rfl, .inr rfl,
    endless_tooLong 30⟩

/-- The duration of a new track is neither taken nor refused. -/
theorem endless_duration_overflows :
    Tracks.createGrammar ∈ Builtin.grammars ∧
      Tracks.createGrammar.parse ["--duration", endless] (.int 30) = .error .overflow :=
  ⟨List.mem_cons_self, endless_overruns.overflows (by decide +kernel) (by decide)⟩

/-- The same option with a duration that can be counted and with one that cannot. -/
theorem counted_unless_endless :
    Tracks.createGrammar ∈ Builtin.grammars ∧ (1 : Int) ≤ 30 ∧
      ¬ Tracks.createGrammar.Overruns 30 ["--duration", "2s"] ∧
      ((∃ args, Tracks.createGrammar.parse ["--duration", "2s"] (.int 30) = .ok args) ∨
        ∃ p, Tracks.createGrammar.parse ["--duration", "2s"] (.int 30) = .error (.problem p) ∧
          p.kind = .validation) ∧
      Tracks.createGrammar.Overruns 30 ["--duration", endless] ∧
      Tracks.createGrammar.parse ["--duration", endless] (.int 30) = .error .overflow := by
  have hmem : Tracks.createGrammar ∈ Builtin.grammars := List.mem_cons_self
  have hshort := parse_unless_overruns hmem (by decide : (1 : Int) ≤ 30) ["--duration", "2s"]
  have hlong := parse_unless_overruns hmem (by decide : (1 : Int) ≤ 30) ["--duration", endless]
  have hcounted : ¬ Tracks.createGrammar.Overruns 30 ["--duration", "2s"] := fun h => by
    have hok : (Tracks.createGrammar.parse ["--duration", "2s"] (.int 30)).isOk = true := by
      decide +kernel
    rw [hshort.2 h] at hok
    cases hok
  exact ⟨hmem, by decide, hcounted, hshort.1 hcounted, endless_overruns,
    hlong.2 endless_overruns⟩

end Grammar

end Montage
