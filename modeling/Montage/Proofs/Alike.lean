/-
# Changes that are not seen

A line of a report shows two unequal values, and shows them differently, with three exceptions
(`Changes.Alike`).  In these, and in no other case, the line reads as if nothing had changed
(`Changes.eq_iff_alike`, `Collection.merge_visible`):

    duration: 1.0s → 1.0s     121 and 122 frames at 120 a second, rounded to tenths of a second
    name: none → none         the text `none`, and no value
    name: nan → nan           a value that does not equal itself

A value that is no text is written as a word, as a duration or as it is quoted (`Changes.Shown`).
The first character and the last one tell these three forms apart.  Within a form nothing but the
rounding of durations brings two values together: below a second, in whole seconds and in whole
minutes the number before the letter tells the frames (`Duration.Written.unique`).  So at an integer
rate two durations look alike exactly if both are rounded to the same tenth of a second
(`Changes.alike_frames_iff`).
-/
import Montage.Proofs.Quoted
import Montage.Proofs.Report

namespace Montage

/-! ## Durations -/

namespace Number

variable {m n : Int} {x : Binary64} {a : Number}

theorem isFinite_of_div_int (h : (int m).div (int n) = .ok x) : x.isFinite = true := by
  unfold div at h
  dsimp only at h
  split at h
  · cases h
  · split at h
    · cases h
      assumption
    · cases h

/-- A number without a remainder is a multiple. -/
theorem eq_mul_of_mod (hmod : (int m).mod (int n) = .ok a) (hzero : a.isZero = true) :
    (int m).floorDiv (int n) = .ok (int (m.fdiv n)) ∧ m = m.fdiv n * n := by
  unfold mod at hmod
  unfold floorDiv
  dsimp only at hmod ⊢
  split at hmod
  · cases hmod
  · cases hmod
    refine ⟨if_neg ‹_›, ?_⟩
    have hfmod : m.fmod n = 0 := by simpa [isZero] using hzero
    have hsplit := Int.mul_fdiv_add_fmod m n
    rw [hfmod, Int.add_zero, Int.mul_comm] at hsplit
    exact hsplit.symm

theorem not_dvd_of_mod (hmod : (int m).mod (int n) = .ok a) (hzero : a.isZero = false) :
    ¬ n ∣ m := by
  unfold mod at hmod
  dsimp only at hmod
  split at hmod
  · cases hmod
  · cases hmod
    rintro hdvd
    rw [isZero, Int.fmod_eq_zero_of_dvd hdvd] at hzero
    cases hzero

end Number

namespace Duration

variable {fps : Number} {m n : Int} {u v : Value} {s : String} {t : List Char} {unit : Char}

/-- The frames are shown rounded: a second or more of them and, at an integer rate, no whole number
of seconds. -/
structure Rounded (fps : Number) (n : Int) : Prop where
  nonzero : n ≠ 0
  second : ∃ q, (Number.int n).div fps = .ok q ∧ q.compareInt? 1 ≠ some .lt
  broken : ∀ k, fps = .int k → ¬ k ∣ n

/-- The frames of a minute and of a second, each with its letter. -/
def unitsAt (k : Int) : List (Char × Int) := [('m', k * 60), ('s', k)]

theorem unitsAt_cases {k size : Int} (h : (unit, size) ∈ unitsAt k) :
    unit = 'm' ∧ size = k * 60 ∨ unit = 's' ∧ size = k := by
  simpa [unitsAt] using h

/-- What is written before the letter of the unit.  Rounded frames have a point there, unless the
rate is a float. -/
inductive Written (fps : Number) (v : Value) (n : Int) (t : List Char) : Char → Prop
  | frames : t = (if n = 0 then .int 0 else v).quotedChars → Written fps v n t 'f'
  | whole {k size q : Int} {unit : Char} : fps = .int k → (unit, size) ∈ unitsAt k →
      n = q * size → t = (toString q).toList → Written fps v n t unit
  | rounded {unit : Char} : Rounded fps n → unit ∈ ['m', 's'] →
      (∀ k, fps = .int k → '.' ∈ t) → Written fps v n t unit

theorem point_of_tenthsText {a : Number} (h : tenthsText a fps = .ok s) :
    ∃ t, s.toList = t ++ ['s'] ∧ '.' ∈ t := by
  obtain ⟨b, -, h⟩ := bind_eq_ok.mp h
  obtain ⟨q, -, h⟩ := bind_eq_ok.mp h
  obtain ⟨tenths, -, h⟩ := bind_eq_ok.mp h
  obtain ⟨x, hx, h⟩ := bind_eq_ok.mp h
  cases h
  refine ⟨(x.fixedText 1).toList, String.toList_append, ?_⟩
  have hfinite := Number.isFinite_of_div_int hx
  cases x with
  | finite => simp [Binary64.fixedText]
  | _ => cases hfinite

/-- Frames that make a second are written in seconds or in tenths of one. -/
theorem written_of_seconds (hn : n ≠ 0)
    (hsecond : ∃ q, (Number.int n).div fps = .ok q ∧ q.compareInt? 1 ≠ some .lt)
    (h : (do
      let r ← (Number.int n).mod fps
      if r.isZero then return (← (Number.int n).floorDiv fps).text ++ "s"
      else tenthsText (.int n) fps) = .ok s) :
    ∃ t unit, s.toList = t ++ [unit] ∧ Written fps v n t unit := by
  obtain ⟨r, hr, h⟩ := bind_eq_ok.mp h
  cases hzero : r.isZero with
  | true =>
      rw [if_pos hzero] at h
      obtain ⟨q, hq, h⟩ := bind_eq_ok.mp h
      cases h
      refine ⟨q.text.toList, 's', String.toList_append, ?_⟩
      cases fps with
      | int k =>
          obtain ⟨hdiv, heq⟩ := Number.eq_mul_of_mod hr hzero
          cases hq.symm.trans hdiv
          exact .whole rfl (by simp [unitsAt]) heq rfl
      | float x => exact .rounded ⟨hn, hsecond, nofun⟩ (by decide) nofun
  | false =>
      rw [hzero] at h
      obtain ⟨t, ht, hpoint⟩ := point_of_tenthsText h
      refine ⟨t, 's', ht, .rounded ⟨hn, hsecond, ?_⟩ (by decide) fun _ _ => hpoint⟩
      rintro k rfl
      exact Number.not_dvd_of_mod hr hzero

theorem written_of_text (hv : v.number? = some (.int n)) (h : text v fps = .ok s) :
    ∃ t unit, s.toList = t ++ [unit] ∧ Written fps v n t unit := by
  have hnumber : v.toNumber = .ok (.int n) := by rw [Value.toNumber, hv]
  have hdisplay : v.display = v.quoted := by
    cases v with
    | text => cases hv
    | _ => rfl
  unfold text at h
  rw [hnumber, ok_bind] at h
  by_cases hn : n = 0
  · subst hn
    cases h
    exact ⟨['0'], 'f', rfl, .frames (by rw [if_pos rfl]; rfl)⟩
  have hzero : (Number.int n).isZero = false := by simpa [Number.isZero] using hn
  simp only [hzero, Bool.false_eq_true, if_false] at h
  obtain ⟨q, hq, h⟩ := bind_eq_ok.mp h
  by_cases hlt : q.compareInt? 1 = some .lt
  · rw [if_pos hlt] at h
    cases h
    refine ⟨v.quotedChars, 'f', ?_, .frames (by rw [if_neg hn])⟩
    rw [hdisplay]
    exact String.toList_append
  have hsecond : ∃ q, (Number.int n).div fps = .ok q ∧ q.compareInt? 1 ≠ some .lt := ⟨q, hq, hlt⟩
  rw [if_neg hlt] at h
  split at h
  · obtain ⟨minute, hminute, h⟩ := bind_eq_ok.mp h
    obtain ⟨r, hr, h⟩ := bind_eq_ok.mp h
    split at h
    · rename_i hzero
      obtain ⟨q, hq, h⟩ := bind_eq_ok.mp h
      cases h
      refine ⟨q.text.toList, 'm', String.toList_append, ?_⟩
      cases fps with
      | int k =>
          cases hminute
          obtain ⟨hdiv, heq⟩ := Number.eq_mul_of_mod hr hzero
          cases hq.symm.trans hdiv
          exact .whole rfl (by simp [unitsAt]) heq rfl
      | float x => exact .rounded ⟨hn, hsecond, nofun⟩ (by decide) nofun
    · exact written_of_seconds hn hsecond h
  · exact written_of_seconds hn hsecond h

/-- At an integer rate rounded frames are shown in tenths of a second. -/
theorem text_of_rounded {k : Int} (hv : v.number? = some (.int n)) (h : Rounded (.int k) n) :
    text v (.int k) = tenthsText (.int n) (.int k) := by
  have hnumber : v.toNumber = .ok (.int n) := by rw [Value.toNumber, hv]
  have hzero : (Number.int n).isZero = false := by simpa [Number.isZero] using h.nonzero
  obtain ⟨q, hq, hlt⟩ := h.second
  have hbroken := h.broken k rfl
  have hk : k ≠ 0 := by
    rintro rfl
    cases hq
  have hmod {size : Int} (hsize : size ≠ 0) (hdvd : k ∣ size) :
      ∃ r, (Number.int n).mod (.int size) = .ok r ∧ r.isZero = false := by
    refine ⟨.int (n.fmod size), if_neg hsize, ?_⟩
    have hnot : ¬ size ∣ n := fun hsize => hbroken (hdvd.trans hsize)
    simpa [Number.isZero, Int.dvd_iff_fmod_eq_zero] using hnot
  obtain ⟨r, hr, hrest⟩ := hmod hk dvd_rfl
  obtain ⟨r', hr', hrest'⟩ := hmod (by omega : k * 60 ≠ 0) (Dvd.intro 60 rfl)
  have hminute : (Number.int k).mul (.int 60) = .ok (.int (k * 60)) := rfl
  unfold text
  simp only [hnumber, ok_bind, hzero, hq, if_neg hlt, hminute, hr, hrest, hr', hrest',
    Bool.false_eq_true, if_false, ite_self]

theorem Written.mem_units (h : Written fps v n t unit) : unit ∈ ['f', 'm', 's'] := by
  cases h with
  | frames => decide
  | whole _ hunit => rcases unitsAt_cases hunit with ⟨rfl, -⟩ | ⟨rfl, -⟩ <;> decide
  | rounded _ hunit => exact List.mem_cons_of_mem _ hunit

theorem point_not_mem (q : Int) : '.' ∉ (toString q).toList := by
  rw [Json.toList_toString_int, List.mem_append, not_or]
  constructor
  · cases decide (q < 0) <;> decide
  · intro hmem
    cases isDigit_toDigits q.natAbs '.' hmem

/-- Different numbers of frames are written alike only if both are rounded. -/
theorem Written.unique (hu : u.number? = some (.int m)) (hv : v.number? = some (.int n))
    (hm : Written fps u m t unit) (hn : Written fps v n t unit) :
    m = n ∨ Rounded fps m ∧ Rounded fps n := by
  -- the letter parts frames from the rest, and the point parts whole units from rounded ones
  cases hm with
  | frames hm =>
      cases hn with
      | frames hn =>
          have hsame := congrArg Value.number?
            (Value.quoted_injective (String.toList_inj.mp (hm.symm.trans hn)))
          have hnumber {w : Value} {k : Int} (hw : w.number? = some (.int k)) :
              (if k = 0 then .int 0 else w).number? = some (.int k) := by
            split
            · rename_i hk
              rw [hk]
              rfl
            · exact hw
          rw [hnumber hu, hnumber hv] at hsame
          exact .inl (Number.int.inj (Option.some.inj hsame))
      | whole _ hunit => exact absurd hunit (by simp [unitsAt])
      | rounded _ hunit => exact absurd hunit (by decide)
  | @whole k size q _ hk hunit hm ht =>
      cases hn with
      | frames => exact absurd hunit (by simp [unitsAt])
      | @whole k' size' q' _ hk' hunit' hn ht' =>
          obtain rfl := Number.int.inj (hk.symm.trans hk')
          obtain rfl : size = size' := by
            rcases unitsAt_cases hunit with ⟨rfl, rfl⟩ | ⟨rfl, rfl⟩ <;>
              rcases unitsAt_cases hunit' with ⟨h, rfl⟩ | ⟨h, rfl⟩ <;> first | rfl | cases h
          have hq : Value.quoted (.int q) = Value.quoted (.int q') :=
            String.toList_inj.mp (ht.symm.trans ht')
          obtain rfl := Value.int.inj (Value.quoted_injective hq)
          exact .inl (hm.trans hn.symm)
      | rounded _ _ hpoint => exact absurd (ht ▸ hpoint k hk) (point_not_mem q)
  | rounded hm hunit hpoint =>
      cases hn with
      | frames => exact absurd hunit (by decide)
      | @whole k size q _ hk _ _ ht => exact absurd (ht ▸ hpoint k hk) (point_not_mem q)
      | rounded hn => exact .inr ⟨hm, hn⟩

/-- What is written before the letter for frames is a number. -/
theorem Written.not_mem (hv : v.number? = some (.int n)) (h : Written fps v n t 'f') :
    'n' ∉ t := by
  have hint (k : Int) : 'n' ∉ (Value.int k).quotedChars := by
    intro hmem
    cases (Number.isNumeric_text (a := .int k) rfl).2 'n' hmem
  cases h with
  | frames h =>
      rw [h]
      split
      · exact hint 0
      · cases v with
        | bool b => cases b <;> decide
        | int k => exact hint k
        | _ => cases hv
  | whole _ hunit => exact absurd hunit (by simp [unitsAt])
  | rounded _ hunit => exact absurd hunit (by decide)

end Duration

/-! ## Values in a report -/

namespace Changes

open Value (quotedChars)

variable {countsFrames : Bool} {fps : Number} {u v : Value} {s : String} {t : List Char}
  {unit : Char}

theorem last_of_number (a : Number) : (∃ b, a = .float (.infinite b)) ∨
    ∃ t c, a.text.toList = t ++ [c] ∧ c ∉ ['f', 'm', 's'] := by
  cases ha : a.isFinite with
  | true =>
      obtain ⟨hne, hnumeric⟩ := Number.isNumeric_text ha
      obtain ⟨t, c, htext⟩ := (List.eq_nil_or_concat' _).resolve_left hne
      refine .inr ⟨t, c, htext, fun hmem => ?_⟩
      have hc := hnumeric c (by rw [htext]; simp)
      simp only [List.mem_cons, List.not_mem_nil, or_false] at hmem
      rcases hmem with rfl | rfl | rfl <;> cases hc
  | false =>
      obtain ⟨-, htext⟩ | ⟨ha, -⟩ | ⟨ha, -⟩ := Number.infinite_cases ha
      · exact .inr ⟨['n', 'a'], 'n', htext, by decide⟩
      · exact .inl ⟨false, ha⟩
      · exact .inl ⟨true, ha⟩

/-- Of the quoted values only the infinities end like a duration. -/
theorem last_of_quoted (v : Value) : (∃ b, v = .float (.infinite b)) ∨
    ∃ t c, quotedChars v = t ++ [c] ∧ c ∉ ['f', 'm', 's'] := by
  have hquote {q : Char} (hq : q = '\'' ∨ q = '"') : q ∉ ['f', 'm', 's'] := by
    rcases hq with rfl | rfl <;> decide
  cases v with
  | null => exact .inr ⟨['N', 'o', 'n'], 'e', rfl, by decide⟩
  | bool b =>
      cases b with
      | true => exact .inr ⟨['T', 'r', 'u'], 'e', rfl, by decide⟩
      | false => exact .inr ⟨['F', 'a', 'l', 's'], 'e', rfl, by decide⟩
  | int n =>
      obtain ⟨b, hb⟩ | hlast := last_of_number (.int n)
      · cases hb
      · exact .inr hlast
  | float x =>
      obtain ⟨b, hb⟩ | hlast := last_of_number (.float x)
      · exact .inl ⟨b, congrArg Value.float (Number.float.inj hb)⟩
      · exact .inr hlast
  | text s =>
      have hchars := Text.toList_quoted s []
      rw [List.append_nil, ← List.cons_append] at hchars
      exact .inr ⟨_, _, hchars, hquote (Text.quoteFor_cases _)⟩
  | bytes bs =>
      have hchars := Text.toList_quotedBytes bs []
      rw [List.append_nil, ← List.cons_append, ← List.cons_append] at hchars
      exact .inr ⟨_, _, hchars, hquote (Text.quoteFor_cases _)⟩
  | list items =>
      have hchars := Value.quotedChars_list items []
      rw [List.append_nil, ← List.cons_append] at hchars
      exact .inr ⟨_, _, hchars, by decide⟩
  | object fields =>
      have hchars := Value.quotedChars_object fields []
      rw [List.append_nil, ← List.cons_append] at hchars
      exact .inr ⟨_, _, hchars, by decide⟩

/-- Frames are not written like a quoted value. -/
theorem written_ne_quoted {n : Int} (hu : u.number? = some (.int n))
    (h : Duration.Written fps u n t unit) : quotedChars v ≠ t ++ [unit] := by
  intro hquoted
  obtain ⟨b, rfl⟩ | ⟨t', c, hchars, hc⟩ := last_of_quoted v
  · have hinfinite : ∃ t', quotedChars (.float (.infinite b)) = t' ++ ['f'] ∧ 'n' ∈ t' := by
      cases b with
      | false => exact ⟨['i', 'n'], rfl, by decide⟩
      | true => exact ⟨['-', 'i', 'n'], rfl, by decide⟩
    obtain ⟨t', hchars, hmem⟩ := hinfinite
    obtain ⟨rfl, hunit⟩ := List.append_inj' (hchars.symm.trans hquoted) rfl
    cases hunit
    exact h.not_mem hu hmem
  · obtain ⟨-, hunit⟩ := List.append_inj' (hchars.symm.trans hquoted) rfl
    cases hunit
    exact hc h.mem_units

/-- The values that are written as a word of their own. -/
def words : List (Value × String) :=
  [(.null, "none"), (.bool true, "true"), (.bool false, "false")]

theorem words_cases {w : Value} (hw : (w, s) ∈ words) : s = "none" ∨ s = "true" ∨ s = "false" := by
  have hs : s ∈ words.map Prod.snd := List.mem_map_of_mem (f := Prod.snd) hw
  simpa [words] using hs

/-- How a value that is no text is written. -/
inductive Shown (countsFrames : Bool) (fps : Number) (v : Value) (s : String) : Prop
  | word : (v, s) ∈ words → Shown countsFrames fps v s
  | frames {n : Int} : countsFrames = true → v.number? = some (.int n) →
      Duration.text v fps = .ok s → Shown countsFrames fps v s
  | quoted : s = v.quoted → Shown countsFrames fps v s

theorem number_ne_none (a : Number) : a.text.toList ≠ "none".toList := by
  intro htext
  cases ha : a.isFinite with
  | true => cases (Number.isNumeric_text ha).2 'n' (by rw [htext]; decide)
  | false =>
      obtain ⟨-, h⟩ | ⟨-, h⟩ | ⟨-, h⟩ := Number.infinite_cases ha <;>
        exact absurd (h.symm.trans htext) (by decide)

/-- No value is quoted like one of the words. -/
theorem word_ne_quoted {w : Value} (hw : (w, s) ∈ words) (v : Value) : v.quoted ≠ s := by
  rintro rfl
  obtain ⟨c, t, hchars, hkind⟩ := Value.kindOf_quoted v []
  rw [List.append_nil] at hchars
  rcases words_cases hw with hword | hword | hword
  · have htext : quotedChars v = "none".toList := congrArg String.toList hword
    obtain ⟨rfl, -⟩ := List.cons.inj (hchars.symm.trans htext)
    cases v with
    | int n => exact number_ne_none (.int n) htext
    | float x => exact number_ne_none (.float x) htext
    | _ => cases hkind
  · obtain ⟨rfl, -⟩ := List.cons.inj (hchars.symm.trans (congrArg String.toList hword))
    cases hkind
  · obtain ⟨rfl, -⟩ := List.cons.inj (hchars.symm.trans (congrArg String.toList hword))
    cases hkind

theorem word_unique (hu : (u, s) ∈ words) (hv : (v, s) ∈ words) : u = v :=
  congrArg Prod.fst
    (List.inj_on_of_nodup_map (by decide : (words.map Prod.snd).Nodup) hu hv rfl)

/-- No frames are written like one of the words. -/
theorem word_ne_frames {w : Value} {n : Int} (hw : (w, s) ∈ words)
    (hv : v.number? = some (.int n)) : Duration.text v fps ≠ .ok s := by
  intro h
  obtain ⟨t, unit, hchars, hwritten⟩ := Duration.written_of_text hv h
  have hlast : s.toList.getLast? = some 'e' := by
    rcases words_cases hw with rfl | rfl | rfl <;> rfl
  rw [hchars, List.getLast?_concat] at hlast
  cases hlast
  exact absurd hwritten.mem_units (by decide)

theorem frames_ne_quoted {n : Int} (hu : u.number? = some (.int n)) (v : Value) :
    Duration.text u fps ≠ .ok v.quoted := by
  intro h
  obtain ⟨t, unit, hchars, hwritten⟩ := Duration.written_of_text hu h
  exact written_ne_quoted hu hwritten hchars

/-- Two values that are no texts and shown alike: they are the same, or both whole numbers of
frames. -/
theorem Shown.unique (hu : Shown countsFrames fps u s) (hv : Shown countsFrames fps v s) :
    u = v ∨ ∃ m n, countsFrames = true ∧ u.number? = some (.int m) ∧ v.number? = some (.int n) ∧
      Duration.text u fps = .ok s ∧ Duration.text v fps = .ok s ∧
      (m = n ∨ Duration.Rounded fps m ∧ Duration.Rounded fps n) := by
  cases hu with
  | word hu =>
      cases hv with
      | word hv => exact .inl (word_unique hu hv)
      | frames _ hn hv => exact absurd hv (word_ne_frames hu hn)
      | quoted hv => exact absurd hv.symm (word_ne_quoted hu v)
  | @frames m hcounts hm hu =>
      cases hv with
      | word hv => exact absurd hu (word_ne_frames hv hm)
      | @frames n _ hn hv =>
          obtain ⟨t, unit, hchars, hwritten⟩ := Duration.written_of_text hm hu
          obtain ⟨t', unit', hchars', hwritten'⟩ := Duration.written_of_text hn hv
          obtain ⟨rfl, hunit⟩ := List.append_inj' (hchars.symm.trans hchars') rfl
          cases hunit
          exact .inr ⟨m, n, hcounts, hm, hn, hu, hv, hwritten.unique hm hn hwritten'⟩
      | quoted hv => exact absurd (hv ▸ hu) (frames_ne_quoted hm v)
  | quoted hu =>
      cases hv with
      | word hv => exact absurd hu.symm (word_ne_quoted hv u)
      | frames _ hn hv => exact absurd (hu ▸ hv) (frames_ne_quoted hn u)
      | quoted hv => exact .inl (Value.quoted_injective (hu.symm.trans hv))

/-! ## Lines -/

/-- Unequal values of a field that are shown alike. -/
inductive Alike (countsFrames : Bool) (fps : Number) : Value → Value → Prop
  /-- Rounding brings two durations together. -/
  | rounded {u v : Value} {m n : Int} : countsFrames = true → u.number? = some (.int m) →
      v.number? = some (.int n) → Duration.Rounded fps m → Duration.Rounded fps n →
      Duration.text u fps = Duration.text v fps → Alike countsFrames fps u v
  /-- The old value is a text that spells the new one. -/
  | spelled {s : String} {v : Value} : ¬ v.IsText → valueText countsFrames fps v = .ok s →
      Alike countsFrames fps (.text s) v
  /-- The new value is a text that spells the old one. -/
  | spells {s : String} {v : Value} : ¬ v.IsText → valueText countsFrames fps v = .ok s →
      Alike countsFrames fps v (.text s)
  /-- The value does not equal itself. -/
  | itself {v : Value} : v.same v = false → Alike countsFrames fps v v

/-- At an integer rate two numbers of frames look alike exactly if both are rounded, to the same
tenth of a second. -/
theorem alike_frames_iff {k m n : Int} : Alike true (.int k) (.int m) (.int n) ↔
    Duration.Rounded (.int k) m ∧ Duration.Rounded (.int k) n ∧
      Duration.tenthsText (.int m) (.int k) = Duration.tenthsText (.int n) (.int k) := by
  constructor
  · intro halike
    cases halike with
    | rounded _ hm hn hrounded hrounded' htext =>
        cases hm
        cases hn
        rw [Duration.text_of_rounded rfl hrounded, Duration.text_of_rounded rfl hrounded'] at htext
        exact ⟨hrounded, hrounded', htext⟩
    | itself hsame => cases hsame.symm.trans (Value.Definite.int m).same_self
  · rintro ⟨hrounded, hrounded', htext⟩
    refine .rounded rfl rfl rfl hrounded hrounded' ?_
    rw [Duration.text_of_rounded rfl hrounded, Duration.text_of_rounded rfl hrounded', htext]

end Changes

/-! ## Merges -/

namespace Changes

variable {α : Type} [Entity α] {x y : α} {fps : Number} {frameFields diff : List String}
  {changes : Changes} {es : List Edit} {f : Entity.Field α}

/-- Every field takes the value of the edit that is made of it. -/
theorem exists_set {fs : List (Entity.Field α)} (h : fs.foldlM (setField es) x = .ok y)
    (hf : f ∈ fs) {d : Edit} (hd : es.find? (·.name == Entity.name f) = some d) :
    ∃ e e', Entity.set e f d.value = .ok e' := by
  induction fs generalizing x with
  | nil => cases hf
  | cons g fs ih =>
      rw [List.foldlM_cons] at h
      obtain ⟨z, hz, h⟩ := bind_eq_ok.mp h
      rcases List.mem_cons.mp hf with rfl | hf
      · exact ⟨x, z, (setField_of_find? hd).symm.trans hz⟩
      · exact ih h hf

end Changes

end Montage
