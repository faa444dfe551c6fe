/-
# The texts that are durations

Within white space a duration is an amount and the letters of a unit.  An amount is decimal
digits of any script, with a point and more digits behind them if it has a fraction; the letters
are small or capital.

    letters     an amount `x` at `r` frames a second
    none, ms    x / 1000 * r
    s           x * r
    m           x * 60 * r
    f           x
    ſ, mſ       x * 60 * r

No other text is a duration (`read_by_letters`).  The last row is out of place: a long `ſ` is a
kind of `s`, and so it is let through, but it is none of the letters that are told apart then,
and what is told apart from them all counts minutes.
-/
import Mathlib.Data.List.TakeWhile
import Montage.Duration
import Montage.Proofs.Digits

namespace Montage.Duration

variable {a : Amount} {cs r letters : List Char} {s : String} {fps : Number} {scale : Scale}

/-! ## Amounts -/

/-- The characters of an amount; a point stands before its fraction. -/
def Amount.chars (a : Amount) : List Char :=
  a.whole ++ if a.fraction = [] then [] else '.' :: a.fraction

/-- An amount has digits, at least one of them before the point. -/
structure Amount.Written (a : Amount) : Prop where
  nonempty : a.whole ≠ []
  whole : ∀ c ∈ a.whole, Text.isDecimal c = true
  fraction : ∀ c ∈ a.fraction, Text.isDecimal c = true

/-- The characters do not start with one that could go on with an amount. -/
def Stops (cs : List Char) : Prop := ∀ c ∈ cs.head?, Text.isDecimal c = false ∧ c ≠ '.'

theorem Stops.noDigit (h : Stops r) : ∀ c ∈ r.head?, Text.isDecimal c = false :=
  fun c hc => (h c hc).1

theorem amount?_whole {ds : List Char} (hne : ds ≠ [])
    (hds : ∀ c ∈ ds, Text.isDecimal c = true) (hr : Stops r) :
    amount? (ds ++ r) = some (⟨ds, []⟩, r) := by
  have hnonempty : ds.isEmpty = false := by simpa using hne
  unfold amount?
  dsimp only
  rw [takeWhile_run hds hr.noDigit, dropWhile_run hds hr.noDigit, hnonempty,
    if_neg Bool.false_ne_true]
  split
  · exact absurd rfl (hr '.' rfl).2
  · rfl

theorem amount?_point {ds fs : List Char} (hne : ds ≠ []) (hfs : fs ≠ [])
    (hds : ∀ c ∈ ds, Text.isDecimal c = true) (hdigits : ∀ c ∈ fs, Text.isDecimal c = true)
    (hr : Stops r) : amount? (ds ++ '.' :: (fs ++ r)) = some (⟨ds, fs⟩, r) := by
  have hnonempty : ds.isEmpty = false := by simpa using hne
  have hpoint : ∀ c ∈ ('.' :: (fs ++ r)).head?, Text.isDecimal c = false := by
    rintro c ⟨⟩
    decide
  have hhead : (fs ++ r).head?.any Text.isDecimal = true := by
    obtain ⟨c, f, rfl⟩ := List.exists_cons_of_ne_nil hfs
    exact hdigits c List.mem_cons_self
  unfold amount?
  simp only [takeWhile_run hds hpoint, dropWhile_run hds hpoint, hnonempty, Bool.false_eq_true,
    if_false, hhead, if_true, takeWhile_run hdigits hr.noDigit, dropWhile_run hdigits hr.noDigit]

/-- An amount is read from the front of a text if nothing behind it could go on with it. -/
theorem amount?_append (ha : a.Written) (hr : Stops r) : amount? (a.chars ++ r) = some (a, r) := by
  obtain ⟨whole, fraction⟩ := a
  obtain ⟨hne, hwhole, hfraction⟩ := ha
  unfold Amount.chars
  dsimp only at hne hwhole hfraction ⊢
  split
  · rename_i hempty
    subst hempty
    rw [List.append_nil]
    exact amount?_whole hne hwhole hr
  · rename_i hfs
    rw [List.append_assoc, List.cons_append]
    exact amount?_point hne hfs hwhole hfraction hr

/-- What is read from the front of a text is an amount that stands there. -/
theorem amount?_written (h : amount? cs = some (a, r)) : a.Written ∧ cs = a.chars ++ r := by
  have hall (xs : List Char) : ∀ c ∈ xs.takeWhile Text.isDecimal, Text.isDecimal c = true :=
    fun c hc => List.mem_takeWhile_imp hc
  have hsplit := List.takeWhile_append_dropWhile (p := Text.isDecimal) (l := cs)
  unfold amount? at h
  dsimp only at h
  split at h
  · cases h
  · rename_i hnonempty
    have hne : cs.takeWhile Text.isDecimal ≠ [] := by simpa using hnonempty
    have hbare : (Amount.mk (cs.takeWhile Text.isDecimal) []).Written ∧
        cs = (Amount.mk (cs.takeWhile Text.isDecimal) []).chars ++ cs.dropWhile Text.isDecimal := by
      refine ⟨⟨hne, hall _, nofun⟩, ?_⟩
      rw [Amount.chars, if_pos rfl, List.append_nil, hsplit]
    split at h
    · rename_i rest hrest
      split at h
      · rename_i hhead
        obtain ⟨c, f, rfl⟩ : ∃ c f, rest = c :: f := by
          cases rest with
          | nil => cases hhead
          | cons c f => exact ⟨c, f, rfl⟩
        have hfraction : (c :: f).takeWhile Text.isDecimal ≠ [] := by
          have hc : Text.isDecimal c = true := hhead
          rw [List.takeWhile_cons_of_pos hc]
          exact List.cons_ne_nil _ _
        cases h
        refine ⟨⟨hne, hall _, hall _⟩, ?_⟩
        rw [Amount.chars, if_neg hfraction, List.append_assoc, List.cons_append,
          List.takeWhile_append_dropWhile, ← hrest, hsplit]
      · cases h
        rwa [hrest] at hbare
    · cases h
      exact hbare

/-! ## Letters -/

/-- The letters with those from `A` to `Z` made small. -/
def small (letters : List Char) : List Char := letters.map Char.toLower

/-- The letters of the units, and the scale of each; no letters stand for milliseconds. -/
def units : List (List Char × Scale) := [
  ([], .milliseconds), (['m', 's'], .milliseconds), (['s'], .seconds), (['m'], .minutes),
  (['f'], .frames)]

/-- The letters of seconds and of milliseconds with a long `ſ`, and what they count. -/
def longUnits : List (List Char × Scale) := [(['ſ'], .minutes), (['m', 'ſ'], .minutes)]

theorem toNat_toLower (c : Char) :
    c.toLower.toNat = if 65 ≤ c.toNat ∧ c.toNat ≤ 90 then c.toNat + 32 else c.toNat := by
  have hcapital : (c.val ≥ 'A'.val ∧ c.val ≤ 'Z'.val) ↔ 65 ≤ c.toNat ∧ c.toNat ≤ 90 := by
    simp only [ge_iff_le, UInt32.le_iff_toNat_le]
    rfl
  unfold Char.toLower
  split
  · rename_i h
    have hle := hcapital.mp h
    have hval : (c.val + 32).toNat = (c.toNat + 32) % 2 ^ 32 := UInt32.toNat_add c.val 32
    rw [if_pos hle]
    change (c.val + 32).toNat = c.toNat + 32
    omega
  · rename_i h
    rw [if_neg (mt hcapital.mpr h)]

theorem beq_small_or_capital {c low high : Char} (hlow : 97 ≤ low.toNat ∧ low.toNat ≤ 122)
    (hhigh : high.toNat + 32 = low.toNat) : (c == low || c == high) = (c.toLower == low) := by
  rw [Bool.eq_iff_iff, Bool.or_eq_true, beq_iff_eq, beq_iff_eq, beq_iff_eq, ← Char.toNat_inj,
    ← Char.toNat_inj, ← Char.toNat_inj, toNat_toLower]
  split <;> omega

theorem beq_long {c : Char} : (c == 'ſ') = (c.toLower == 'ſ') := by
  have hlong : 'ſ'.toNat = 383 := rfl
  rw [Bool.eq_iff_iff, beq_iff_eq, beq_iff_eq, ← Char.toNat_inj, ← Char.toNat_inj,
    toNat_toLower, hlong]
  split <;> omega

/-- It makes no difference whether letters are small or capital. -/
theorem scale?_iff :
    scale? letters = some scale ↔ (small letters, scale) ∈ units ++ longUnits := by
  have hf (c : Char) : (c == 'f' || c == 'F') = (c.toLower == 'f') :=
    beq_small_or_capital (by decide) rfl
  have hs (c : Char) : (c == 's' || c == 'S') = (c.toLower == 's') :=
    beq_small_or_capital (by decide) rfl
  have hm (c : Char) : (c == 'm' || c == 'M') = (c.toLower == 'm') :=
    beq_small_or_capital (by decide) rfl
  match letters with
  | [] => cases scale <;> simp [scale?, units, longUnits, small]
  | [c] =>
      rw [scale?, hf, hs, hm, beq_long, small, List.map_singleton]
      generalize c.toLower = l
      simp only [beq_iff_eq, Bool.or_eq_true, units, longUnits, List.cons_append,
        List.nil_append, List.mem_cons, Prod.mk.injEq, List.cons_ne_self, false_and,
        List.cons.injEq, List.ne_cons_self, and_false, and_true, List.not_mem_nil, or_self,
        or_false, false_or]
      grind
  | [c, d] =>
      rw [scale?, hs, hm, beq_long, small, List.map_cons, List.map_singleton]
      generalize c.toLower = l
      generalize d.toLower = k
      simp only [beq_iff_eq, Option.ite_none_right_eq_some, units, longUnits, List.cons_append,
        List.nil_append, List.mem_cons, Prod.mk.injEq, reduceCtorEq, false_and, List.cons.injEq,
        and_true, List.cons_ne_self, and_false, List.not_mem_nil, or_false, false_or]
      grind
  | c :: d :: e :: r => simp [scale?, units, longUnits, small]

/-! ## Durations -/

/-- Within white space the text is an amount and these letters. -/
def Spells (s : String) (a : Amount) (letters : List Char) : Prop :=
  a.Written ∧ Text.stripChars s.toList = a.chars ++ letters

/-- The letters that stand in a unit. -/
def unitLetters : List Char := ['f', 'F', 's', 'S', 'm', 'M', 'ſ']

theorem mem_unitLetters (h : scale? letters = some scale) : ∀ c ∈ letters, c ∈ unitLetters := by
  unfold scale? at h
  split at h
  · exact nofun
  · intro c hc
    obtain rfl := List.mem_singleton.mp hc
    grind [unitLetters]
  · intro c hc
    rcases List.mem_pair.mp hc with rfl | rfl <;> grind [unitLetters]
  · cases h

/-- The letters of a unit do not go on with an amount. -/
theorem stops_of_scale? (h : scale? letters = some scale) : Stops letters := by
  have hneither : unitLetters.all (fun c => !Text.isDecimal c && c != '.') = true := rfl
  intro c hc
  have hmem := mem_unitLetters h c (List.mem_of_mem_head? hc)
  simpa using List.all_eq_true.mp hneither c hmem

theorem visible_of_scale? (h : scale? letters = some scale) :
    ∀ c ∈ letters, Text.isBlank c = false := by
  have hvisible : unitLetters.all (fun c => !Text.isBlank c) = true := rfl
  intro c hc
  simpa using List.all_eq_true.mp hvisible c (mem_unitLetters h c hc)

theorem parts?_iff :
    parts? s = some (a, scale) ↔
      ∃ letters, Spells s a letters ∧ (small letters, scale) ∈ units ++ longUnits := by
  constructor
  · intro h
    obtain ⟨⟨b, letters⟩, hamount, h⟩ := Option.bind_eq_some_iff.mp h
    obtain ⟨named, hscale, h⟩ := Option.bind_eq_some_iff.mp h
    cases h
    exact ⟨letters, amount?_written hamount, scale?_iff.mp hscale⟩
  · rintro ⟨letters, ⟨hwritten, hchars⟩, hmem⟩
    have hscale := scale?_iff.mpr hmem
    rw [parts?, hchars, amount?_append hwritten (stops_of_scale? hscale)]
    dsimp only [Option.bind_eq_bind, Option.bind_some]
    rw [hscale]
    rfl

/-! ## Plain digits -/

theorem isBlank_of_isDigit {c : Char} (h : Json.isDigit c = true) : Text.isBlank c = false := by
  simp only [Json.isDigit, Bool.and_eq_true, decide_eq_true_eq] at h
  simp only [Text.isBlank, Bool.or_eq_false_iff, Bool.and_eq_false_iff,
    decide_eq_false_iff_not, beq_eq_false_iff_ne]
  omega

theorem stripChars_of_visible (h : ∀ c ∈ cs, Text.isBlank c = false) :
    Text.stripChars cs = cs := by
  have hstrip : Text.stripChars ([] ++ (cs ++ [])) = cs :=
    Text.stripChars_between nofun (fun c hc => h c (List.mem_of_mem_head? hc))
      (fun c hc => h c (List.mem_of_getLast? hc)) nofun
  rwa [List.nil_append, List.append_nil] at hstrip

/-- The amount is written with plain digits. -/
structure Amount.Plain (a : Amount) : Prop where
  nonempty : a.whole ≠ []
  whole : ∀ c ∈ a.whole, Json.isDigit c = true
  fraction : ∀ c ∈ a.fraction, Json.isDigit c = true

theorem Amount.Plain.written (h : a.Plain) : a.Written where
  nonempty := h.nonempty
  whole c hc := isDecimal_of_isDigit (h.whole c hc)
  fraction c hc := isDecimal_of_isDigit (h.fraction c hc)

theorem Amount.Plain.visible (h : a.Plain) : ∀ c ∈ a.chars, Text.isBlank c = false := by
  intro c hc
  unfold Amount.chars at hc
  rcases List.mem_append.mp hc with hc | hc
  · exact isBlank_of_isDigit (h.whole c hc)
  · split at hc
    · cases hc
    · rcases List.mem_cons.mp hc with rfl | hc
      · decide
      · exact isBlank_of_isDigit (h.fraction c hc)

/-- An amount in plain digits and the letters of a unit, with nothing around them. -/
theorem parts?_plain (scale : Scale) (ha : a.Plain)
    (h : (small letters, scale) ∈ units ++ longUnits) :
    parts? (String.ofList (a.chars ++ letters)) = some (a, scale) := by
  refine parts?_iff.mpr ⟨letters, ⟨ha.written, ?_⟩, h⟩
  rw [String.toList_ofList, stripChars_of_visible]
  intro c hc
  rcases List.mem_append.mp hc with hc | hc
  · exact ha.visible c hc
  · exact visible_of_scale? (scale?_iff.mpr h) c hc

/-- Digits alone are milliseconds. -/
theorem parts?_digits {ds : List Char} (hne : ds ≠ []) (hds : ∀ d ∈ ds, Json.isDigit d = true) :
    parts? (String.ofList ds) = some (⟨ds, []⟩, .milliseconds) := by
  have hchars : (Amount.mk ds []).chars ++ [] = ds := by
    rw [Amount.chars, if_pos rfl, List.append_nil, List.append_nil]
  have hunit : (small [], Scale.milliseconds) ∈ units ++ longUnits := by simp [small, units]
  have hparts := parts?_plain (a := ⟨ds, []⟩) .milliseconds ⟨hne, hds, nofun⟩ hunit
  rwa [hchars] at hparts

/-! ## Readings -/

theorem read_of_spells (scale : Scale) (h : Spells s a letters)
    (hmem : (small letters, scale) ∈ units ++ longUnits) :
    read s fps = (framesOf a scale fps).map some := by
  rw [read, parts?_iff.mpr ⟨letters, h, hmem⟩]

/-- A text is no duration exactly if it is not spelled as one. -/
theorem read_eq_none_iff :
    read s fps = .ok none ↔
      ¬ ∃ a letters scale, Spells s a letters ∧ (small letters, scale) ∈ units ++ longUnits := by
  constructor
  · rintro h ⟨a, letters, scale, hspells, hmem⟩
    rw [read_of_spells scale hspells hmem] at h
    cases hframes : framesOf a scale fps with
    | error f =>
        rw [hframes] at h
        cases h
    | ok n =>
        rw [hframes] at h
        cases h
  · intro h
    unfold read
    split
    · rfl
    · rename_i a scale hparts
      obtain ⟨letters, hspells, hmem⟩ := parts?_iff.mp hparts
      exact absurd ⟨a, letters, scale, hspells, hmem⟩ h

/-- The frames of an amount of minutes. -/
def framesOfMinutes (a : Amount) (fps : Number) : Except Fault Int := do
  framesOfSeconds (← (Number.float a.value).mul (.int 60)) fps

theorem exists_scale_iff :
    (∃ scale, (letters, scale) ∈ units ++ longUnits) ↔
      letters ∈ [[], ['m', 's'], ['s'], ['m'], ['f']] ∨ letters ∈ [['ſ'], ['m', 'ſ']] := by
  simp [units, longUnits, exists_or]
  tauto

/-- What becomes of a text is told by the letters behind its amount, at any frame rate: those of
a unit scale the amount by that unit, and those with a long `ſ` scale it by minutes.  A text that
is not spelled with either is no duration. -/
theorem read_by_letters (s : String) (fps : Number) :
    (∀ a letters, Spells s a letters →
      (letters = [] ∨ small letters = ['m', 's'] →
        read s fps = (framesOfMs (.float a.value) fps).map some) ∧
      (small letters = ['s'] → read s fps = (framesOfSeconds (.float a.value) fps).map some) ∧
      (small letters = ['m'] → read s fps = (framesOfMinutes a fps).map some) ∧
      (small letters = ['f'] → read s fps = (roundHalfUp (.float a.value)).map some) ∧
      (small letters ∈ [['ſ'], ['m', 'ſ']] → read s fps = (framesOfMinutes a fps).map some)) ∧
    (read s fps = .ok none ↔
      ∀ a letters, Spells s a letters →
        small letters ∉ [[], ['m', 's'], ['s'], ['m'], ['f']] ∧
          small letters ∉ [['ſ'], ['m', 'ſ']]) := by
  refine ⟨fun a letters h => ⟨?_, fun hs => ?_, fun hm => ?_, fun hf => ?_, fun hlong => ?_⟩, ?_⟩
  · rintro (rfl | hms)
    · exact read_of_spells .milliseconds h (by simp [small, units])
    · exact read_of_spells .milliseconds h (by simp [hms, units])
  · exact read_of_spells .seconds h (by simp [hs, units])
  · exact read_of_spells .minutes h (by simp [hm, units])
  · exact read_of_spells .frames h (by simp [hf, units])
  · refine read_of_spells .minutes h (List.mem_append_right units ?_)
    simpa [longUnits] using hlong
  · rw [read_eq_none_iff]
    constructor
    · intro hnone a letters h
      have hscale := mt exists_scale_iff.mpr fun ⟨scale, hmem⟩ =>
        hnone ⟨a, letters, scale, h, hmem⟩
      exact not_or.mp hscale
    · rintro hnot ⟨a, letters, scale, h, hmem⟩
      exact not_or.mpr (hnot a letters h) (exists_scale_iff.mp ⟨scale, hmem⟩)

/-- A second with a long `ſ` is not spelled as the durations are, and counts a minute. -/
theorem long_second_counts_minute :
    read "1ſ" (.int 30) = .ok (some 1800) ∧
      ¬ ∃ a letters, Spells "1ſ" a letters ∧
        small letters ∈ [[], ['m', 's'], ['s'], ['m'], ['f']] := by
  refine ⟨by decide +kernel, ?_⟩
  rintro ⟨a, letters, ⟨hwritten, hchars⟩, hmem⟩
  obtain ⟨scale, hscale⟩ := exists_scale_iff.mpr (.inl hmem)
  have hamount := amount?_append hwritten (stops_of_scale? (scale?_iff.mpr hscale))
  have hlong : amount? (Text.stripChars "1ſ".toList) = some (⟨['1'], []⟩, ['ſ']) := by
    decide +kernel
  rw [← hchars, hlong] at hamount
  cases hamount
  revert hmem
  decide

end Montage.Duration
