/-
# Numbers read back

A `Numeral` is a number as JSON writes it: the digits before the point, the digits
after it, an exponent.  The reader takes a numeral apart again, as long as nothing
stands behind it that could go on with it (`unsigned?_numeral`).  An integer and a
finite float are written as numerals that stand for them (`ofNat`, `exists_numeral`),
so a number that was written is read back (`scalar?_int`, `scalar?_float`).
-/
import Montage.Json.Printer
import Montage.Proofs.Decimal
import Montage.Proofs.Digits

namespace Montage.Json

/-! ## What may follow a number -/

/-- The characters do not start with a digit. -/
def NoDigit (cs : List Char) : Prop := ∀ c ∈ cs.head?, isDigit c = false

/-- The characters do not start with one that could go on with a number. -/
def Ends (cs : List Char) : Prop :=
  ∀ c ∈ cs.head?, isDigit c = false ∧ c ≠ '.' ∧ c ≠ 'e' ∧ c ≠ 'E'

variable {cs ds r rest : List Char} {c : Char}

theorem Ends.noDigit (h : Ends rest) : NoDigit rest := fun c hc => (h c hc).1

theorem noDigit_cons (h : isDigit c = false) : NoDigit (c :: rest) := by
  intro d hd
  cases hd
  exact h

/-! ## The parts of a number -/

theorem wholeDigits?_append (hc : c ≠ '0') (hds : ∀ d ∈ c :: r, isDigit d = true)
    (hrest : NoDigit rest) : wholeDigits? (c :: r ++ rest) = some (c :: r, rest) := by
  have hr : ∀ d ∈ r, isDigit d = true := fun d hd => hds d (List.mem_cons_of_mem _ hd)
  have hzero : (c == '0') = false := by simpa using hc
  rw [List.cons_append, wholeDigits?]
  simp only [hzero, hds c List.mem_cons_self, if_true, takeWhile_run hr hrest,
    dropWhile_run hr hrest, Bool.false_eq_true, if_false]

theorem fractionDigits_append (hds : ∀ d ∈ ds, isDigit d = true) (hne : ds ≠ [])
    (hrest : NoDigit rest) : fractionDigits ('.' :: (ds ++ rest)) = (ds, rest) := by
  obtain ⟨c, r, rfl⟩ := List.exists_cons_of_ne_nil hne
  have hhead : (c :: r ++ rest).head?.any isDigit = true := hds c List.mem_cons_self
  rw [fractionDigits, if_pos hhead, takeWhile_run hds hrest, dropWhile_run hds hrest]

theorem fractionDigits_of_ne (h : ∀ c ∈ cs.head?, c ≠ '.') : fractionDigits cs = ([], cs) := by
  unfold fractionDigits
  split
  · exact absurd rfl (h _ rfl)
  · rfl

theorem exponent?_of_ends (h : Ends rest) : exponent? rest = none := by
  cases rest with
  | nil => rfl
  | cons c r =>
      obtain ⟨-, -, he, hE⟩ := h c rfl
      simp [exponent?, he, hE]

/-- The digits of an exponent, at least two. -/
def exponentDigits (e : Int) : List Char :=
  if (Nat.toDigits 10 e.natAbs).length < 2 then '0' :: Nat.toDigits 10 e.natAbs
  else Nat.toDigits 10 e.natAbs

/-- The characters of an exponent. -/
def exponentChars (e : Int) : List Char :=
  'e' :: (if e < 0 then '-' else '+') :: exponentDigits e

theorem toList_exponentText (e : Int) :
    (Binary64.exponentText e).toList = exponentChars e := by
  have hdigits : (toString e.natAbs).toList = Nat.toDigits 10 e.natAbs := by
    rw [Nat.toString_eq_repr, Nat.toList_repr]
  have hlength : (toString e.natAbs).length = (Nat.toDigits 10 e.natAbs).length := by
    rw [← String.length_toList, hdigits]
  unfold Binary64.exponentText exponentChars exponentDigits
  simp only [String.toList_append, hlength]
  split <;> split <;> simp

theorem isDigit_exponentDigits (e : Int) : ∀ c ∈ exponentDigits e, isDigit c = true := by
  unfold exponentDigits
  split
  · intro c hc
    rcases List.mem_cons.mp hc with rfl | hc
    · decide
    · exact isDigit_toDigits _ c hc
  · exact isDigit_toDigits _

theorem natOfDigits_exponentDigits (e : Int) :
    Text.natOfDigits (exponentDigits e) = e.natAbs := by
  unfold exponentDigits
  split
  · exact (natOfDigits_zeros_append 1 _).trans (natOfDigits_toDigits _)
  · exact natOfDigits_toDigits _

theorem exponentDigits_ne_nil (e : Int) : exponentDigits e ≠ [] := by
  unfold exponentDigits
  split
  · exact nofun
  · rename_i hlength
    intro hnil
    rw [hnil] at hlength
    exact hlength (by decide)

theorem exponent?_append (e : Int) (hrest : NoDigit rest) :
    exponent? (exponentChars e ++ rest) = some (e, rest) := by
  obtain ⟨c, r, hcons⟩ := List.exists_cons_of_ne_nil (exponentDigits_ne_nil e)
  have hdigits := isDigit_exponentDigits e
  have hhead : (exponentDigits e ++ rest).head?.any isDigit = true := by
    rw [hcons] at hdigits ⊢
    exact hdigits c List.mem_cons_self
  unfold exponentChars
  by_cases hneg : e < 0
  · rw [if_pos hneg]
    simp only [exponent?, List.cons_append, beq_self_eq_true, Bool.true_or, if_true, hhead,
      takeWhile_run hdigits hrest, dropWhile_run hdigits hrest,
      natOfDigits_exponentDigits]
    rw [Int.ofNat_natAbs_of_nonpos hneg.le, neg_neg]
  · rw [if_neg hneg]
    simp only [exponent?, List.cons_append, beq_self_eq_true, Bool.true_or, if_true, hhead,
      takeWhile_run hdigits hrest, dropWhile_run hdigits hrest,
      natOfDigits_exponentDigits, Bool.false_eq_true, if_false]
    rw [Int.natAbs_of_nonneg (not_lt.mp hneg)]

/-! ## Whole numbers -/

/-- A number as it is written. -/
structure Numeral where
  /-- The digits before the point. -/
  whole : List Char
  /-- The digits after the point, which is left out if there are none. -/
  fraction : List Char := []
  exponent : Option Int := none

namespace Numeral

/-- The point and the digits after it. -/
def fractionChars (x : Numeral) : List Char :=
  if x.fraction.isEmpty then [] else '.' :: x.fraction

/-- The exponent, if there is one. -/
def scaleChars (x : Numeral) : List Char := (x.exponent.map exponentChars).getD []

/-- The characters of a numeral. -/
def chars (x : Numeral) : List Char := x.whole ++ (x.fractionChars ++ x.scaleChars)

/-- Digits with no zero in front, unless it stands alone, and digits after the point. -/
structure Written (x : Numeral) : Prop where
  whole : x.whole = ['0'] ∨
    ∃ c r, x.whole = c :: r ∧ c ≠ '0' ∧ ∀ d ∈ c :: r, isDigit d = true
  fraction : ∀ d ∈ x.fraction, isDigit d = true

/-- The value that a numeral stands for. -/
def value (negative : Bool) (x : Numeral) : Value :=
  match x.exponent, x.fraction with
  | none, [] =>
    let n : Int := Text.natOfDigits x.whole
    .int (if negative then -n else n)
  | e, ds =>
    .float (Binary64.ofDecimal negative (Text.natOfDigits (x.whole ++ ds)) (e.getD 0 - ds.length))

variable {x : Numeral}

theorem noDigit_scaleChars (h : Ends rest) :
    NoDigit (x.scaleChars ++ rest) ∧ ∀ c ∈ (x.scaleChars ++ rest).head?, c ≠ '.' := by
  unfold scaleChars
  cases x.exponent with
  | none => exact ⟨h.noDigit, fun c hc => (h c hc).2.1⟩
  | some e =>
      refine ⟨noDigit_cons (by decide), ?_⟩
      rintro c ⟨⟩
      decide

theorem exponent?_scaleChars (h : Ends rest) :
    exponent? (x.scaleChars ++ rest) = x.exponent.map fun e => (e, rest) := by
  unfold scaleChars
  cases x.exponent with
  | none => exact exponent?_of_ends h
  | some e => exact exponent?_append e h.noDigit

theorem fractionDigits_numeral (hx : x.Written) (h : Ends rest) :
    fractionDigits (x.fractionChars ++ (x.scaleChars ++ rest)) =
      (x.fraction, x.scaleChars ++ rest) := by
  obtain ⟨hdigit, hdot⟩ := noDigit_scaleChars (x := x) h
  unfold fractionChars
  cases hfraction : x.fraction with
  | nil => exact fractionDigits_of_ne hdot
  | cons c r =>
      have hdigits := hx.fraction
      rw [hfraction] at hdigits
      exact fractionDigits_append hdigits (List.cons_ne_nil c r) hdigit

theorem wholeDigits?_numeral (hx : x.Written) (h : Ends rest) :
    wholeDigits? (x.whole ++ (x.fractionChars ++ (x.scaleChars ++ rest))) =
      some (x.whole, x.fractionChars ++ (x.scaleChars ++ rest)) := by
  have hrest : NoDigit (x.fractionChars ++ (x.scaleChars ++ rest)) := by
    unfold fractionChars
    split
    · exact (noDigit_scaleChars h).1
    · exact noDigit_cons (by decide)
  rcases hx.whole with hwhole | ⟨c, r, hwhole, hc, hdigits⟩
  · rw [hwhole]
    rfl
  · rw [hwhole]
    exact wholeDigits?_append hc hdigits hrest

/-- A numeral is read back. -/
theorem unsigned?_numeral (hx : x.Written) (negative : Bool) (h : Ends rest) :
    unsigned? negative (x.chars ++ rest) = some (x.value negative, rest) := by
  unfold unsigned? chars value
  rw [List.append_assoc, List.append_assoc, wholeDigits?_numeral hx h]
  simp only [Option.bind_eq_bind, Option.bind_some, fractionDigits_numeral hx h,
    exponent?_scaleChars h]
  cases hexponent : x.exponent with
  | none =>
      have hscale : x.scaleChars = [] := by
        rw [scaleChars, hexponent]
        rfl
      rw [hscale]
      cases x.fraction with
      | nil => rfl
      | cons c r =>
          simp only [Option.map_none, Option.getD_none, Int.zero_sub]
          rfl
  | some e => cases x.fraction <;> rfl

/-- A numeral with a fraction or an exponent stands for a float. -/
theorem value_float (negative : Bool) (h : x.fraction ≠ [] ∨ x.exponent ≠ none) :
    x.value negative = .float (Binary64.ofDecimal negative
      (Text.natOfDigits (x.whole ++ x.fraction)) (x.exponent.getD 0 - x.fraction.length)) := by
  unfold value
  split
  · rename_i hexponent hfraction
    exact absurd h (by simp [hexponent, hfraction])
  · rfl

end Numeral

/-! ## What is written -/

open Binary64 (layOut Layout.full dropZeros ofDecimal)

theorem written_toDigits (n : Nat) : (Numeral.mk (Nat.toDigits 10 n) [] none).Written where
  whole := by
    by_cases hn : n = 0
    · subst hn
      exact .inl rfl
    · obtain ⟨c, r, hdigits, hc⟩ := toDigits_eq_cons hn
      exact .inr ⟨c, r, hdigits, hc, hdigits ▸ isDigit_toDigits n⟩
  fraction := nofun

/-- The text is a numeral that stands for a decimal number. -/
def Spells (text : List Char) (digits : Nat) (exponent : Int) : Prop :=
  ∃ x : Numeral, x.Written ∧ text = x.chars ∧
    ∀ negative, x.value negative = .float (ofDecimal negative digits exponent)

theorem isDigit_zeros (k : Nat) : ∀ d ∈ List.replicate k '0', isDigit d = true := by
  intro d hd
  rw [List.eq_of_mem_replicate hd]
  decide

/-- The point stands before the digits, perhaps with zeros between. -/
theorem spells_before (k : Nat) (hds : ∀ d ∈ ds, isDigit d = true) (hne : ds ≠ []) :
    Spells ('0' :: '.' :: (List.replicate k '0' ++ ds)) (Text.natOfDigits ds)
      (-(k + ds.length : Int)) := by
  have hfraction : List.replicate k '0' ++ ds ≠ [] := by simp [hne]
  refine ⟨⟨['0'], List.replicate k '0' ++ ds, none⟩, ⟨.inl rfl, ?_⟩, ?_, fun negative => ?_⟩
  · intro d hd
    rcases List.mem_append.mp hd with hd | hd
    · exact isDigit_zeros k d hd
    · exact hds d hd
  · simp [Numeral.chars, Numeral.fractionChars, Numeral.scaleChars, hne]
  · have hdigits : Text.natOfDigits (['0'] ++ (List.replicate k '0' ++ ds)) =
        Text.natOfDigits ds :=
      (natOfDigits_zeros_append 1 _).trans (natOfDigits_zeros_append k ds)
    rw [Numeral.value_float negative (.inl hfraction)]
    simp only [hdigits, Option.getD_none, List.length_append, List.length_replicate, Int.zero_sub,
      Nat.cast_add]

/-- The point stands among the digits. -/
theorem spells_among {after : List Char} (hc : c ≠ '0')
    (hds : ∀ d ∈ c :: r ++ after, isDigit d = true) (hne : after ≠ []) :
    Spells (c :: r ++ '.' :: after) (Text.natOfDigits (c :: r ++ after))
      (-(after.length : Int)) := by
  refine ⟨⟨c :: r, after, none⟩, ⟨.inr ⟨c, r, rfl, hc, ?_⟩, ?_⟩, ?_, fun negative => ?_⟩
  · exact fun d hd => hds d (List.mem_append_left _ hd)
  · exact fun d hd => hds d (List.mem_append_right _ hd)
  · simp [Numeral.chars, Numeral.fractionChars, Numeral.scaleChars, hne]
  · rw [Numeral.value_float negative (.inl hne)]
    simp only [Option.getD_none, Int.zero_sub]

/-- Zeros stand between the digits and the point, and one behind it. -/
theorem spells_behind (k : Nat) (hc : c ≠ '0') (hds : ∀ d ∈ c :: r, isDigit d = true) :
    Spells (c :: r ++ List.replicate k '0' ++ ['.', '0']) (Text.natOfDigits (c :: r)) k := by
  have hall : ∀ d ∈ c :: (r ++ List.replicate k '0') ++ ['0'], isDigit d = true := by
    intro d hd
    rw [← List.cons_append, List.mem_append, List.mem_append] at hd
    rcases hd with (hd | hd) | hd
    · exact hds d hd
    · exact isDigit_zeros k d hd
    · exact isDigit_zeros 1 d hd
  obtain ⟨x, hx, hchars, hvalue⟩ := spells_among hc hall (List.cons_ne_nil '0' [])
  refine ⟨x, hx, hchars ▸ rfl, fun negative => ?_⟩
  have hdigits : Text.natOfDigits (c :: (r ++ List.replicate k '0') ++ ['0']) =
      Text.natOfDigits (c :: r) * 10 ^ (k + 1) := by
    rw [← natOfDigits_append_zeros, List.replicate_succ', ← List.append_assoc]
    rfl
  have hexp : (-(['0'].length : Int)) = (k : Int) - (k + 1 : Nat) := by
    simp
  rw [hvalue, hdigits, hexp, Binary64.ofDecimal_shift]

/-- The point stands behind the first digit, and an exponent at the end. -/
theorem spells_scaled (e : Int) (hc : c ≠ '0') (hds : ∀ d ∈ c :: r, isDigit d = true) :
    Spells (c :: (if r.isEmpty then [] else '.' :: r) ++ exponentChars e)
      (Text.natOfDigits (c :: r)) (e - r.length) := by
  refine ⟨⟨[c], r, some e⟩, ⟨.inr ⟨c, [], rfl, hc, ?_⟩, ?_⟩, ?_, fun negative => ?_⟩
  · exact fun d hd => hds d (List.mem_singleton.mp hd ▸ List.mem_cons_self)
  · exact fun d hd => hds d (List.mem_cons_of_mem _ hd)
  · rfl
  · exact Numeral.value_float negative (.inr nofun)

/-- Digits are laid out as a numeral, with the point where it is due. -/
theorem spells_layOut (point : Int) (hc : c ≠ '0') (hds : ∀ d ∈ c :: r, isDigit d = true) :
    Spells (layOut .full (c :: r) point).toList (Text.natOfDigits (c :: r))
      (point - (c :: r).length) := by
  unfold layOut
  by_cases hrange : -4 < point ∧ point ≤ Layout.full.widest
  · rw [if_pos hrange]
    dsimp only
    by_cases hpoint : point ≤ 0
    · rw [if_pos hpoint]
      have hspells := spells_before (-point).toNat hds (List.cons_ne_nil c r)
      have hexp : (-((-point).toNat + (c :: r).length : Int)) = point - (c :: r).length := by omega
      rw [hexp] at hspells
      simpa using hspells
    rw [if_neg hpoint]
    by_cases hinside : point.toNat < (c :: r).length
    · rw [if_pos hinside]
      obtain ⟨k, hk⟩ : ∃ k, point.toNat = k + 1 := ⟨point.toNat - 1, by omega⟩
      rw [hk] at hinside ⊢
      have hsplit : c :: r.take k ++ r.drop k = c :: r :=
        congrArg (c :: ·) (List.take_append_drop k r)
      have hne : r.drop k ≠ [] := by
        rw [List.length_cons] at hinside
        simpa using hinside
      have hspells := spells_among hc (hsplit ▸ hds) hne
      have hexp : (-((r.drop k).length : Int)) = point - (c :: r).length := by
        rw [List.length_drop, List.length_cons]
        rw [List.length_cons] at hinside
        omega
      rw [hsplit, hexp] at hspells
      simpa using hspells
    · rw [if_neg hinside]
      have hspells := spells_behind (point.toNat - (c :: r).length) hc hds
      have hexp : ((point.toNat - (c :: r).length : Nat) : Int) = point - (c :: r).length := by
        omega
      rw [hexp] at hspells
      simpa [Layout.full] using hspells
  · rw [if_neg hrange]
    have hspells := spells_scaled (point - 1) hc hds
    have hexp : point - 1 - r.length = point - (c :: r).length := by
      rw [List.length_cons]
      omega
    rw [hexp] at hspells
    cases r with
    | nil => simpa [toList_exponentText] using hspells
    | cons d s => simpa [toList_exponentText] using hspells

theorem Spells.congr {text : List Char} {digits digits' : Nat} {exponent exponent' : Int}
    (h : Spells text digits exponent)
    (heq : ∀ negative, ofDecimal negative digits exponent = ofDecimal negative digits' exponent') :
    Spells text digits' exponent' := by
  obtain ⟨x, hx, hchars, hvalue⟩ := h
  refine ⟨x, hx, hchars, fun negative => ?_⟩
  exact (hvalue negative).trans (congrArg Value.float (heq negative))

/-- The full text of a decimal number spells it. -/
theorem spells_text (d : Binary64.Decimal) : Spells (d.text .full).toList d.digits d.exponent := by
  unfold Binary64.Decimal.text
  dsimp only
  by_cases hzero : d.digits = 0
  · rw [if_pos hzero, hzero]
    refine ⟨⟨['0'], ['0'], none⟩, ⟨.inl rfl, isDigit_zeros 1⟩, rfl, fun negative => ?_⟩
    have hdigits : Text.natOfDigits (['0'] ++ ['0']) = 0 := by decide
    have hread (e : Int) : ofDecimal negative 0 e = Binary64.zero negative := if_pos rfl
    rw [Numeral.value_float negative (.inl (List.cons_ne_nil '0' []))]
    rw [hdigits, hread, hread]
  · have hall : (toString d.digits).toList = Nat.toDigits 10 d.digits := by
      rw [Nat.toString_eq_repr, Nat.toList_repr]
    obtain ⟨c, r, hcons, hc⟩ := toDigits_eq_cons hzero
    obtain ⟨s, hs⟩ := dropZeros_eq_cons (r := r) hc
    obtain ⟨k, hk⟩ := dropZeros_append (c :: r)
    rw [hs] at hk
    have hdigits : ∀ d ∈ c :: s, isDigit d = true := by
      intro e he
      refine isDigit_toDigits d.digits e ?_
      rw [hcons, hk]
      exact List.mem_append_left _ he
    have hvalue : d.digits = Text.natOfDigits (c :: s) * 10 ^ k := by
      rw [← natOfDigits_append_zeros, ← hk, ← hcons, natOfDigits_toDigits]
    have hlength : (c :: r).length = (c :: s).length + k := by
      conv_lhs => rw [hk]
      rw [List.length_append, List.length_replicate]
    rw [if_neg hzero, hall, hcons, hs]
    refine (spells_layOut _ hc hdigits).congr fun negative => ?_
    have hexp : ((c :: r).length + d.exponent) - (c :: s).length = d.exponent + k := by omega
    rw [hexp, hvalue, ← Binary64.ofDecimal_shift negative _ k (d.exponent + k), Int.add_sub_cancel]

/-! ## Words and numbers -/

/-- The sign of a negative number. -/
def signChars (negative : Bool) : List Char := if negative then ['-'] else []

/-- A character of a number. -/
def isNumeric (c : Char) : Bool := isDigit c || ['.', 'e', '+', '-'].contains c

theorem isNumeric_of_isDigit (hds : ∀ c ∈ ds, isDigit c = true) : ∀ c ∈ ds, isNumeric c = true :=
  fun c hc => Bool.or_eq_true_iff.mpr (.inl (hds c hc))

theorem isNumeric_exponentChars (e : Int) : ∀ c ∈ exponentChars e, isNumeric c = true := by
  unfold exponentChars
  refine List.forall_mem_cons.mpr ⟨by decide, List.forall_mem_cons.mpr ⟨?_, ?_⟩⟩
  · split <;> decide
  · exact isNumeric_of_isDigit (isDigit_exponentDigits e)

/-- A numeral is not empty, and holds the characters of a number only. -/
theorem Numeral.Written.isNumeric {x : Numeral} (h : x.Written) :
    x.chars ≠ [] ∧ ∀ c ∈ x.chars, isNumeric c = true := by
  have hwhole : x.whole ≠ [] ∧ ∀ c ∈ x.whole, isDigit c = true := by
    rcases h.whole with hwhole | ⟨c, r, hwhole, -, hdigits⟩
    · rw [hwhole]
      exact ⟨List.cons_ne_nil _ _, List.forall_mem_singleton.mpr (by decide)⟩
    · rw [hwhole]
      exact ⟨List.cons_ne_nil c r, hdigits⟩
  have hfraction : ∀ c ∈ x.fractionChars, Json.isNumeric c = true := by
    unfold Numeral.fractionChars
    split
    · exact nofun
    · exact List.forall_mem_cons.mpr ⟨by decide, isNumeric_of_isDigit h.fraction⟩
  have hscale : ∀ c ∈ x.scaleChars, Json.isNumeric c = true := by
    unfold Numeral.scaleChars
    cases x.exponent with
    | none => exact nofun
    | some e => exact isNumeric_exponentChars e
  refine ⟨List.append_ne_nil_of_left_ne_nil hwhole.1 _, ?_⟩
  exact List.forall_mem_append.mpr
    ⟨isNumeric_of_isDigit hwhole.2, List.forall_mem_append.mpr ⟨hfraction, hscale⟩⟩

theorem isNumeric_signChars (negative : Bool) :
    ∀ c ∈ signChars negative, isNumeric c = true := by
  cases negative with
  | true => exact List.forall_mem_singleton.mpr (by decide)
  | false => exact nofun

theorem words_of_isDigit (hc : isDigit c = true) :
    (words.findSome? fun w => (after? w.1 (c :: r)).map fun t => (w.2, t)) = none ∧
      (words.findSome? fun w => (after? w.1 ('-' :: c :: r)).map fun t => (w.2, t)) = none ∧
      c ≠ '-' := by
  have hne : ∀ d, isDigit d = false → c ≠ d := by
    rintro _ hd rfl
    rw [hc] at hd
    cases hd
  have hn := hne 'n' (by decide)
  have ht := hne 't' (by decide)
  have hf := hne 'f' (by decide)
  have hN := hne 'N' (by decide)
  have hI := hne 'I' (by decide)
  have hminus := hne '-' (by decide)
  refine ⟨?_, ?_, hminus⟩
  · simp [words, after?, hn.symm, ht.symm, hf.symm, hN.symm, hI.symm, hminus.symm]
  · simp [words, after?, hI.symm]

/-- A numeral behind its sign is read back. -/
theorem scalar?_numeral {x : Numeral} (hx : x.Written) (negative : Bool) (h : Ends rest) :
    scalar? (signChars negative ++ x.chars ++ rest) = some (x.value negative, rest) := by
  have hread := Numeral.unsigned?_numeral hx negative h
  obtain ⟨c, r, hchars, hc⟩ : ∃ c r, x.chars ++ rest = c :: r ∧ isDigit c = true := by
    rcases hx.whole with hwhole | ⟨c, r, hwhole, -, hdigits⟩
    · exact ⟨'0', _, by rw [Numeral.chars, hwhole]; rfl, by decide⟩
    · exact ⟨c, _, by rw [Numeral.chars, hwhole]; rfl, hdigits c List.mem_cons_self⟩
  obtain ⟨hplain, hsigned, hminus⟩ := words_of_isDigit (r := r) hc
  rw [List.append_assoc]
  rw [hchars] at hread ⊢
  cases negative with
  | true =>
      rw [show signChars true ++ c :: r = '-' :: c :: r from rfl, scalar?, hsigned]
      exact hread
  | false =>
      rw [show signChars false ++ c :: r = c :: r from rfl, scalar?, hplain]
      · exact hread
      · intro t heq
        cases heq
        exact hminus rfl

/-- An integer is written as a sign and digits. -/
theorem toList_toString_int (n : Int) :
    (toString n).toList = signChars (n < 0) ++ Nat.toDigits 10 n.natAbs := by
  rw [Int.toString_eq_repr]
  cases n with
  | ofNat k =>
      have hsign : decide (Int.ofNat k < 0) = false := decide_eq_false (by simp)
      rw [hsign]
      exact Nat.toList_repr
  | negSucc k =>
      rw [decide_eq_true (Int.negSucc_lt_zero k)]
      exact String.toList_append.trans (congrArg _ Nat.toList_repr)

/-- A finite float is written as a sign and a numeral that stands for it. -/
theorem exists_numeral (n : Bool) (m p : Nat) (hc : Canonical m p) :
    ∃ x : Numeral, x.Written ∧ floatChars (.finite n m p hc) = signChars n ++ x.chars ∧
      x.value n = .float (.finite n m p hc) := by
  have htext : floatChars (.finite n m p hc) =
      signChars n ++ ((Binary64.shortest (.finite n m p hc)).text .full).toList := by
    cases n <;> exact String.toList_append
  obtain ⟨x, hx, hchars, hvalue⟩ := spells_text (Binary64.shortest (.finite n m p hc))
  refine ⟨x, hx, hchars ▸ htext, (hvalue n).trans ?_⟩
  exact congrArg Value.float (Binary64.shortest_reads hc)

/-- An integer is read back. -/
theorem scalar?_int (n : Int) (h : Ends rest) :
    scalar? ((toString n).toList ++ rest) = some (.int n, rest) := by
  have hread := scalar?_numeral (written_toDigits n.natAbs) (n < 0) h
  have hchars : (Numeral.mk (Nat.toDigits 10 n.natAbs) [] none).chars =
      Nat.toDigits 10 n.natAbs := List.append_nil _
  have hvalue : (Numeral.mk (Nat.toDigits 10 n.natAbs) [] none).value (n < 0) = .int n := by
    simp only [Numeral.value, natOfDigits_toDigits, decide_eq_true_eq, Value.int.injEq]
    split <;> omega
  rw [hchars, hvalue] at hread
  rw [toList_toString_int]
  exact hread

/-- A float is read back. -/
theorem scalar?_float (x : Binary64) (h : Ends rest) :
    scalar? (floatChars x ++ rest) = some (.float x, rest) := by
  cases x with
  | nan => rfl
  | infinite n => cases n <;> rfl
  | finite n m p hc =>
      obtain ⟨x, hx, hchars, hvalue⟩ := exists_numeral n m p hc
      rw [hchars, scalar?_numeral hx n h, hvalue]

end Montage.Json
