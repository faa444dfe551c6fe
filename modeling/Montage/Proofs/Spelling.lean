/-
# How numbers and colours are written

A number is written with an optional sign and then

    12      digits of any script
    12.     digits and a point, with more digits behind it or none
    .5      a point and digits

and a colour in one of three ways:

    #ff0000         a hash and three to eight digits in base sixteen
    rgb(1, 2, 3)    `rgb` or `rgba`, and anything but a line feed in parentheses
    red             letters from `a` to `z` and from `A` to `Z`

The converters take these texts and no others, but for one thing: a line feed at the end is passed
over (`written_forms`).  So it gets into a document, since a colour is kept as it was typed.
-/
import Mathlib.Data.List.TakeWhile
import Montage.Options.Converter
import Montage.Proofs.Digits

namespace Montage.Converter

open Text (isDecimal)

variable {cs ds w f : List Char} {c : Char} {n : Bool} {raw : String} {fps : Number}
  {form : List Char → Prop}

/-! ## Forms -/

/-- An unsigned decimal number, with its digits before and behind the point. -/
inductive Unsigned : List Char → List Char → List Char → Prop
  | whole {ds : List Char} : ds ≠ [] → (∀ d ∈ ds, isDecimal d = true) → Unsigned ds [] ds
  | point {ds fs : List Char} : ds ≠ [] → (∀ d ∈ ds, isDecimal d = true) →
      (∀ d ∈ fs, isDecimal d = true) → Unsigned ds fs (ds ++ '.' :: fs)
  | fraction {fs : List Char} : fs ≠ [] → (∀ d ∈ fs, isDecimal d = true) →
      Unsigned [] fs ('.' :: fs)

/-- A decimal number, with whether it is negative and its digits before and behind the point. -/
inductive Signed : Bool → List Char → List Char → List Char → Prop
  | bare {w f cs : List Char} : Unsigned w f cs → Signed false w f cs
  | plus {w f cs : List Char} : Unsigned w f cs → Signed false w f ('+' :: cs)
  | minus {w f cs : List Char} : Unsigned w f cs → Signed true w f ('-' :: cs)

/-- A colour. -/
inductive Color : List Char → Prop
  | hex {ds : List Char} : 3 ≤ ds.length → ds.length ≤ 8 →
      (∀ d ∈ ds, '0' ≤ d ∧ d ≤ '9' ∨ 'a' ≤ d ∧ d ≤ 'f' ∨ 'A' ≤ d ∧ d ≤ 'F') → Color ('#' :: ds)
  | call {name : String} {inner : List Char} : name ∈ ["rgb", "rgba"] → '\n' ∉ inner →
      Color (name.toList ++ '(' :: (inner ++ [')']))
  | name {letters : List Char} : letters ≠ [] →
      (∀ c ∈ letters, 'a' ≤ c ∧ c ≤ 'z' ∨ 'A' ≤ c ∧ c ≤ 'Z') → Color letters

/-- The whole text has the form, or all of it but a line feed at its end. -/
def Admits (form : List Char → Prop) (raw : String) : Prop :=
  form raw.toList ∨ ∃ cs, form cs ∧ raw.toList = cs ++ ['\n']

/-! ## A line feed at the end -/

theorem withoutFinalLineFeed_of_not_mem (h : '\n' ∉ cs) : withoutFinalLineFeed cs = cs :=
  if_neg fun hlast => h (List.mem_of_getLast? hlast)

theorem withoutFinalLineFeed_append (cs : List Char) :
    withoutFinalLineFeed (cs ++ ['\n']) = cs := by
  unfold withoutFinalLineFeed
  rw [List.getLast?_concat, if_pos rfl, List.dropLast_concat]

/-- A form without line feeds is looked for in all of the text but a line feed at its end. -/
theorem form_withoutFinalLineFeed (hform : ∀ cs, form cs → '\n' ∉ cs) :
    form (withoutFinalLineFeed raw.toList) ↔ Admits form raw := by
  constructor
  · intro h
    by_cases hlast : raw.toList.getLast? = some '\n'
    · obtain ⟨cs, hcs⟩ := List.getLast?_eq_some_iff.mp hlast
      rw [hcs, withoutFinalLineFeed_append] at h
      exact .inr ⟨cs, h, hcs⟩
    · rw [withoutFinalLineFeed, if_neg hlast] at h
      exact .inl h
  · rintro (h | ⟨cs, h, hcs⟩)
    · rwa [withoutFinalLineFeed_of_not_mem (hform _ h)]
    · rwa [hcs, withoutFinalLineFeed_append]

/-! ## Numbers -/

theorem Unsigned.character (h : Unsigned w f cs) : ∀ c ∈ cs, isDecimal c = true ∨ c = '.' := by
  intro c hc
  cases h with
  | whole _ hds => exact .inl (hds c hc)
  | point _ hds hfs =>
      rcases List.mem_append.mp hc with hc | hc
      · exact .inl (hds c hc)
      · rcases List.mem_cons.mp hc with hc | hc
        · exact .inr hc
        · exact .inl (hfs c hc)
  | fraction _ hfs =>
      rcases List.mem_cons.mp hc with hc | hc
      · exact .inr hc
      · exact .inl (hfs c hc)

theorem Unsigned.not_mem (h : Unsigned w f cs) (hc : isDecimal c = false) (hpoint : c ≠ '.') :
    c ∉ cs := by
  intro hmem
  rcases h.character c hmem with hdecimal | hpoint'
  · rw [hdecimal] at hc
    cases hc
  · exact hpoint hpoint'

theorem Signed.not_mem (h : Signed n w f cs) : '\n' ∉ cs := by
  have hbody {cs : List Char} (h : Unsigned w f cs) : '\n' ∉ cs :=
    h.not_mem (by decide) (by decide)
  cases h with
  | bare h => exact hbody h
  | plus h => exact List.not_mem_cons_of_ne_of_not_mem (by decide) (hbody h)
  | minus h => exact List.not_mem_cons_of_ne_of_not_mem (by decide) (hbody h)

/-- Digits on either side of a point are found. -/
theorem decimalParts?_point (hne : ds ≠ [] ∨ f ≠ []) (hds : ∀ d ∈ ds, isDecimal d = true)
    (hf : ∀ d ∈ f, isDecimal d = true) : decimalParts? (ds ++ '.' :: f) = some (ds, f) := by
  have hpoint : ∀ c ∈ ('.' :: f).head?, isDecimal c = false := by
    rintro c ⟨⟩
    decide
  have hall : f.all isDecimal = true := List.all_eq_true.mpr hf
  have hsome : (ds.isEmpty && f.isEmpty) = false := by
    rw [Bool.and_eq_false_iff, List.isEmpty_eq_false_iff, List.isEmpty_eq_false_iff]
    exact hne
  unfold decimalParts?
  simp only [takeWhile_run hds hpoint, dropWhile_run hds hpoint, hall, hsome, Bool.not_false,
    Bool.and_true, if_true]

theorem decimalParts?_iff : decimalParts? cs = some (w, f) ↔ Unsigned w f cs := by
  constructor
  · intro h
    have hwhole : ∀ d ∈ cs.takeWhile isDecimal, isDecimal d = true :=
      fun d hd => List.mem_takeWhile_imp hd
    have hsplit := List.takeWhile_append_dropWhile (p := isDecimal) (l := cs)
    unfold decimalParts? at h
    dsimp only at h
    generalize cs.takeWhile isDecimal = ds at *
    split at h
    · rename_i hrest
      rw [hrest, List.append_nil] at hsplit
      split at h
      · cases h
      · rename_i hne
        cases h
        subst hsplit
        exact .whole (mt List.isEmpty_iff.mpr hne) hwhole
    · rename_i r hrest
      rw [hrest] at hsplit
      split at h
      · rename_i hdigits
        cases h
        subst hsplit
        rw [Bool.and_eq_true, List.all_eq_true] at hdigits
        obtain ⟨hf, hne⟩ := hdigits
        cases w with
        | nil => exact .fraction (by simpa using hne) hf
        | cons d ds => exact .point (List.cons_ne_nil d ds) hwhole hf
      · cases h
    · cases h
  · intro h
    cases h with
    | whole hne hds =>
        have hnonempty : cs.isEmpty = false := by simpa using hne
        unfold decimalParts?
        dsimp only
        rw [List.takeWhile_eq_self_iff.mpr hds, List.dropWhile_eq_nil_iff.mpr hds, hnonempty]
        rfl
    | point hne hds hf => exact decimalParts?_point (.inl hne) hds hf
    | fraction hne hf =>
        exact decimalParts?_point (.inr hne) (fun _ hd => absurd hd List.not_mem_nil) hf

/-- Without a sign a number stays as it is. -/
theorem Unsigned.unsigned (h : Unsigned w f cs) : unsigned cs = cs := by
  unfold Converter.unsigned
  split
  · exact absurd List.mem_cons_self (h.not_mem (c := '+') (by decide) (by decide))
  · exact absurd List.mem_cons_self (h.not_mem (c := '-') (by decide) (by decide))
  · rfl

theorem signed_iff :
    Signed n w f cs ↔ Unsigned w f (unsigned cs) ∧ n = decide (cs.head? = some '-') := by
  constructor
  · intro h
    cases h with
    | bare h =>
        rw [h.unsigned]
        refine ⟨h, (decide_eq_false fun hhead => ?_).symm⟩
        exact h.not_mem (by decide) (by decide) (List.mem_of_mem_head? hhead)
    | plus h => exact ⟨h, rfl⟩
    | minus h => exact ⟨h, rfl⟩
  · rintro ⟨h, rfl⟩
    unfold Converter.unsigned at h
    split at h
    · exact .plus h
    · exact .minus h
    · rename_i hminus
      have hhead : decide (cs.head? = some '-') = false := by
        refine decide_eq_false fun hhead => ?_
        obtain ⟨r, rfl⟩ := List.head?_eq_some_iff.mp hhead
        exact hminus r rfl
      rw [hhead]
      exact .bare h

/-- The float that a decimal number is read as. -/
def decimalValue (n : Bool) (w f : List Char) : Binary64 :=
  .ofDecimal n (Text.natOfDigits (w ++ f)) (-f.length)

theorem float?_eq_some_iff {x : Binary64} :
    float? raw = some x ↔ ∃ n w f, Admits (Signed n w f) raw ∧ x = decimalValue n w f := by
  have hadmits (n : Bool) (w f : List Char) :
      Admits (Signed n w f) raw ↔ Signed n w f (withoutFinalLineFeed raw.toList) :=
    (form_withoutFinalLineFeed fun _ h => h.not_mem).symm
  unfold float?
  simp only [Option.map_eq_some_iff, Prod.exists, decimalParts?_iff, hadmits, signed_iff]
  constructor
  · rintro ⟨w, f, h, rfl⟩
    exact ⟨_, w, f, ⟨h, rfl⟩, rfl⟩
  · rintro ⟨n, w, f, ⟨h, rfl⟩, rfl⟩
    exact ⟨w, f, h, rfl⟩

/-! ## Colours -/

theorem isHexDigit_iff :
    isHexDigit c = true ↔ '0' ≤ c ∧ c ≤ '9' ∨ 'a' ≤ c ∧ c ≤ 'f' ∨ 'A' ≤ c ∧ c ≤ 'F' := by
  have hdigit : c.isDigit = true ↔ '0' ≤ c ∧ c ≤ '9' := by
    show (decide ('0' ≤ c) && decide (c ≤ '9')) = true ↔ _
    rw [Bool.and_eq_true, decide_eq_true_eq, decide_eq_true_eq]
  rw [isHexDigit, Bool.or_eq_true, Bool.or_eq_true, Bool.and_eq_true, Bool.and_eq_true, hdigit,
    decide_eq_true_eq, decide_eq_true_eq, decide_eq_true_eq, decide_eq_true_eq, or_assoc]

theorem isAlpha_iff : c.isAlpha = true ↔ 'a' ≤ c ∧ c ≤ 'z' ∨ 'A' ≤ c ∧ c ≤ 'Z' := by
  have hcapital : c.isUpper = true ↔ 'A' ≤ c ∧ c ≤ 'Z' := decide_eq_true_iff
  have hsmall : c.isLower = true ↔ 'a' ≤ c ∧ c ≤ 'z' := by
    show (decide ('a' ≤ c) && decide (c ≤ 'z')) = true ↔ _
    rw [Bool.and_eq_true, decide_eq_true_eq, decide_eq_true_eq]
  show (c.isUpper || c.isLower) = true ↔ _
  rw [Bool.or_eq_true, hcapital, hsmall, or_comm]

theorem isColorCall_iff {name : String} :
    isColorCall name cs = true ↔
      ∃ inner, '\n' ∉ inner ∧ cs = name.toList ++ '(' :: (inner ++ [')']) := by
  have hplain (inner : List Char) : inner.all (· != '\n') = true ↔ '\n' ∉ inner := by
    rw [List.all_eq_true]
    constructor
    · intro h hmem
      simpa using h '\n' hmem
    · intro h d hd
      exact bne_iff_ne.mpr fun heq => h (heq ▸ hd)
  unfold isColorCall
  dsimp only
  rw [Bool.and_eq_true, Bool.and_eq_true, List.isPrefixOf_iff_prefix, hplain, beq_iff_eq]
  constructor
  · rintro ⟨⟨rest, rfl⟩, hlast, hinner⟩
    rw [List.drop_left] at hlast hinner
    obtain ⟨inner, rfl⟩ := List.getLast?_eq_some_iff.mp hlast
    rw [List.dropLast_concat] at hinner
    exact ⟨inner, hinner, List.append_assoc _ _ _⟩
  · rintro ⟨inner, hinner, rfl⟩
    have hopen : name.toList ++ '(' :: (inner ++ [')']) =
        (name.toList ++ ['(']) ++ (inner ++ [')']) := by
      rw [List.append_assoc, List.singleton_append]
    rw [hopen, List.drop_left, List.getLast?_concat, List.dropLast_concat]
    exact ⟨List.prefix_append _ _, rfl, hinner⟩

theorem isColor_iff : isColor cs = true ↔ Color cs := by
  unfold isColor
  simp only [Bool.or_eq_true, isColorCall_iff, Bool.and_eq_true, Bool.not_eq_true',
    List.isEmpty_eq_false_iff, List.all_eq_true, isAlpha_iff]
  constructor
  · rintro (((hhex | ⟨inner, hinner, rfl⟩) | ⟨inner, hinner, rfl⟩) | ⟨hne, hletters⟩)
    · split at hhex
      · rename_i ds
        simp only [Bool.and_eq_true, decide_eq_true_eq, List.all_eq_true, isHexDigit_iff] at hhex
        exact .hex hhex.1.1 hhex.1.2 hhex.2
      · cases hhex
    · exact .call List.mem_cons_self hinner
    · exact .call (List.mem_cons_of_mem _ List.mem_cons_self) hinner
    · exact .name hne hletters
  · intro h
    cases h with
    | hex hlow hhigh hds =>
        refine .inl (.inl (.inl ?_))
        simp only [Bool.and_eq_true, decide_eq_true_eq, List.all_eq_true, isHexDigit_iff]
        exact ⟨⟨hlow, hhigh⟩, hds⟩
    | call hname hinner =>
        rcases List.mem_pair.mp hname with rfl | rfl
        · exact .inl (.inl (.inr ⟨_, hinner, rfl⟩))
        · exact .inl (.inr ⟨_, hinner, rfl⟩)
    | name hne hletters => exact .inr ⟨hne, hletters⟩

theorem Color.not_mem (h : Color cs) : '\n' ∉ cs := by
  cases h with
  | hex _ _ hds =>
      refine List.not_mem_cons_of_ne_of_not_mem (by decide) fun hmem => ?_
      exact absurd (hds _ hmem) (by decide)
  | call hname hinner =>
      rcases List.mem_pair.mp hname with rfl | rfl <;> simp [hinner]
  | name _ hletters =>
      intro hmem
      exact absurd (hletters _ hmem) (by decide)

/-! ## What is taken -/

theorem number_of_admits (h : Admits (Signed n w f) raw) :
    number raw fps = .ok (.float (decimalValue n w f)) := by
  rw [number, decimal, float?_eq_some_iff.mpr ⟨n, w, f, h, rfl⟩]
  rfl

theorem number_of_not_admits (h : ¬ ∃ n w f, Admits (Signed n w f) raw) :
    number raw fps = .error (.badValue "must be a number") := by
  have hnone : float? raw = none := by
    refine Option.eq_none_iff_forall_not_mem.mpr fun x hx => h ?_
    obtain ⟨n, w, f, hadmits, -⟩ := float?_eq_some_iff.mp hx
    exact ⟨n, w, f, hadmits⟩
  rw [number, decimal, hnone]
  rfl

theorem isColor_withoutFinalLineFeed :
    isColor (withoutFinalLineFeed raw.toList) = true ↔ Admits Color raw :=
  isColor_iff.trans (form_withoutFinalLineFeed fun _ h => h.not_mem)

theorem color_of_admits (h : Admits Color raw) : color raw fps = .ok (.text raw) :=
  if_pos (isColor_withoutFinalLineFeed.mpr h)

theorem color_of_not_admits (h : ¬ Admits Color raw) :
    color raw fps =
      .error (.badValue "must be a hex (`#ff0000`), rgb()/rgba(), or CSS color name") :=
  if_neg (mt isColor_withoutFinalLineFeed.mp h)

theorem exists_ok_iff {p : Prop} {r : Except Fault Value} {e : Fault} (hok : p → ∃ v, r = .ok v)
    (herror : ¬ p → r = .error e) : (∃ v, r = .ok v) ↔ p := by
  refine ⟨?_, hok⟩
  rintro ⟨v, hv⟩
  by_contra hp
  rw [herror hp] at hv
  cases hv

/-- A text is taken for a number exactly if it is written as one, and for a colour exactly if it is
written as one; in either case a line feed may stand at the end.  The number is the one that is
written, the colour is kept as it is, and everything else is refused. -/
theorem written_forms (raw : String) (fps : Number) :
    ((∃ v, number raw fps = .ok v) ↔ ∃ n w f, Admits (Signed n w f) raw) ∧
    (∀ n w f, Admits (Signed n w f) raw →
      number raw fps = .ok (.float (decimalValue n w f))) ∧
    ((¬ ∃ n w f, Admits (Signed n w f) raw) →
      number raw fps = .error (.badValue "must be a number")) ∧
    ((∃ v, color raw fps = .ok v) ↔ Admits Color raw) ∧
    (Admits Color raw → color raw fps = .ok (.text raw)) ∧
    (¬ Admits Color raw → color raw fps =
      .error (.badValue "must be a hex (`#ff0000`), rgb()/rgba(), or CSS color name")) := by
  refine ⟨?number, fun n w f => number_of_admits, number_of_not_admits, ?color, color_of_admits,
    color_of_not_admits⟩
  case number =>
    refine exists_ok_iff ?_ number_of_not_admits
    rintro ⟨n, w, f, h⟩
    exact ⟨_, number_of_admits h⟩
  case color => exact exists_ok_iff (fun h => ⟨_, color_of_admits h⟩) color_of_not_admits

/-- A line feed at the end is no part of a number or of a colour, and is passed over. -/
theorem final_line_feed_is_taken :
    number "1\n" (.int 30) = .ok (.float (.ofInt 1)) ∧
      (¬ ∃ n w f, Signed n w f "1\n".toList) ∧
      color "red\n" (.int 30) = .ok (.text "red\n") ∧ ¬ Color "red\n".toList := by
  have hone : Signed false ['1'] [] ['1'] := by
    refine .bare (.whole (List.cons_ne_nil _ _) ?_)
    exact List.forall_mem_singleton.mpr rfl
  have hvalue : decimalValue false ['1'] [] = .ofInt 1 := by decide +kernel
  refine ⟨?_, ?_, rfl, fun h => h.not_mem (by decide)⟩
  · rw [number_of_admits (.inr ⟨['1'], hone, rfl⟩), hvalue]
  · rintro ⟨n, w, f, h⟩
    exact h.not_mem (by decide)

end Montage.Converter
