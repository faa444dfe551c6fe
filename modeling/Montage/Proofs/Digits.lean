/-
# Decimal digits

`Text.natOfDigits` reads the decimal digits of any script.  On the plain ones it
undoes the writing of a number (`natOfDigits_toDigits`), zeros in front count for
nothing, and zeros at the end are powers of ten.
-/
import Mathlib.Tactic
import Montage.Binary64.Decimal
import Montage.Json.Reader

namespace Montage

open Json (isDigit)

variable {ds r : List Char} {c : Char} {n : Nat}

/-! ## Single digits -/

theorem isDigit_of_isDigit (h : c.isDigit = true) : isDigit c = true := by
  unfold Char.isDigit at h
  unfold isDigit
  rw [Bool.and_eq_true, decide_eq_true_eq, decide_eq_true_eq] at h ⊢
  exact ⟨h.1, h.2⟩

/-- A plain digit is a decimal digit, of the value that it shows. -/
theorem decimal?_of_isDigit (h : isDigit c = true) : Text.decimal? c = some (c.toNat - 48) := by
  unfold isDigit at h
  rw [Bool.and_eq_true, decide_eq_true_eq, decide_eq_true_eq] at h
  have hfind : Text.zeros.find? (fun z => z ≤ c.toNat && c.toNat < z + 10) = some 48 := by
    refine List.find?_cons_of_pos ?_
    simp
    omega
  unfold Text.decimal?
  rw [hfind]
  rfl

theorem digitValue_of_isDigit (h : isDigit c = true) : Text.digitValue c = c.toNat - 48 := by
  rw [Text.digitValue, decimal?_of_isDigit h]
  rfl

theorem isDecimal_of_isDigit (h : isDigit c = true) : Text.isDecimal c = true := by
  rw [Text.isDecimal, decimal?_of_isDigit h]
  rfl

/-! ## Runs of digits -/

theorem takeWhile_run {p : Char → Bool} (hds : ∀ c ∈ ds, p c = true)
    (hr : ∀ c ∈ r.head?, p c = false) : (ds ++ r).takeWhile p = ds := by
  rw [List.takeWhile_append_of_pos hds]
  cases r with
  | nil => exact List.append_nil ds
  | cons c r =>
      have hc : ¬ p c = true := by simpa using hr c rfl
      rw [List.takeWhile_cons_of_neg hc, List.append_nil]

theorem dropWhile_run {p : Char → Bool} (hds : ∀ c ∈ ds, p c = true)
    (hr : ∀ c ∈ r.head?, p c = false) : (ds ++ r).dropWhile p = r := by
  rw [List.dropWhile_append_of_pos hds]
  cases r with
  | nil => rfl
  | cons c r =>
      have hc : ¬ p c = true := by simpa using hr c rfl
      rw [List.dropWhile_cons_of_neg hc]

/-! ## Numbers -/

theorem natOfDigits_append (ds es : List Char) :
    Text.natOfDigits (ds ++ es) = Text.natOfDigits ds * 10 ^ es.length + Text.natOfDigits es := by
  induction es using List.reverseRecOn with
  | nil => simp [Text.natOfDigits]
  | append_singleton es c ih =>
      have hlast (xs : List Char) :
          Text.natOfDigits (xs ++ [c]) = 10 * Text.natOfDigits xs + Text.digitValue c := by
        simp [Text.natOfDigits]
      rw [← List.append_assoc, hlast, hlast, ih, List.length_append, List.length_singleton,
        Nat.pow_succ]
      ring

theorem natOfDigits_zeros (k : Nat) : Text.natOfDigits (List.replicate k '0') = 0 := by
  induction k with
  | zero => rfl
  | succ k ih =>
      rw [List.replicate_succ', natOfDigits_append, ih]
      decide

theorem natOfDigits_zeros_append (k : Nat) (ds : List Char) :
    Text.natOfDigits (List.replicate k '0' ++ ds) = Text.natOfDigits ds := by
  rw [natOfDigits_append, natOfDigits_zeros, Nat.zero_mul, Nat.zero_add]

theorem natOfDigits_append_zeros (ds : List Char) (k : Nat) :
    Text.natOfDigits (ds ++ List.replicate k '0') = Text.natOfDigits ds * 10 ^ k := by
  rw [natOfDigits_append, natOfDigits_zeros, List.length_replicate, Nat.add_zero]

theorem isDigit_toDigits (n : Nat) : ∀ c ∈ Nat.toDigits 10 n, isDigit c = true :=
  fun _ hc => isDigit_of_isDigit (Nat.isDigit_of_mem_toDigits (by decide) le_rfl hc)

/-- The digits of a number denote it. -/
theorem natOfDigits_toDigits (n : Nat) : Text.natOfDigits (Nat.toDigits 10 n) = n := by
  have hfold : ∀ (ds : List Char) (k : Nat), (∀ c ∈ ds, isDigit c = true) →
      ds.foldl (fun n c => 10 * n + Text.digitValue c) k = Nat.ofDigitChars 10 ds k := by
    intro ds
    induction ds with
    | nil => exact fun _ _ => rfl
    | cons c ds ih =>
        intro k hds
        rw [List.foldl_cons, digitValue_of_isDigit (hds c List.mem_cons_self),
          Nat.ofDigitChars_cons]
        exact ih _ fun d hd => hds d (List.mem_cons_of_mem _ hd)
  exact (hfold _ 0 (isDigit_toDigits n)).trans Nat.ofDigitChars_ten_toDigits

/-- Digits denote a large number if the first one is not a zero. -/
theorem pow_le_natOfDigits (hc : c ≠ '0') (hdigit : isDigit c = true) (r : List Char) :
    10 ^ r.length ≤ Text.natOfDigits (c :: r) := by
  have hpos : 1 ≤ Text.natOfDigits [c] := by
    have hvalue : Text.natOfDigits [c] = c.toNat - 48 :=
      (Nat.zero_add _).trans (digitValue_of_isDigit hdigit)
    have hne : c.toNat ≠ 48 := fun h => hc (Char.toNat_inj.mp h)
    unfold isDigit at hdigit
    rw [Bool.and_eq_true, decide_eq_true_eq, decide_eq_true_eq] at hdigit
    omega
  calc 10 ^ r.length ≤ Text.natOfDigits [c] * 10 ^ r.length := Nat.le_mul_of_pos_left _ hpos
    _ ≤ Text.natOfDigits [c] * 10 ^ r.length + Text.natOfDigits r := Nat.le_add_right _ _
    _ = Text.natOfDigits (c :: r) := (natOfDigits_append [c] r).symm

/-- A number other than zero is not written with a zero in front. -/
theorem toDigits_eq_cons (hn : n ≠ 0) :
    ∃ c r, Nat.toDigits 10 n = c :: r ∧ c ≠ '0' := by
  induction n using Nat.strongRecOn with
  | _ n ih =>
      rw [Nat.toDigits_eq_if (by decide)]
      split
      · rename_i hlt
        refine ⟨_, [], rfl, ?_⟩
        revert hn
        interval_cases n <;> decide
      · rename_i hge
        obtain ⟨c, r, hdigits, hc⟩ := ih (n / 10) (by omega) (by omega)
        exact ⟨c, r ++ [Nat.digitChar (n % 10)], by rw [hdigits]; rfl, hc⟩

/-! ## Zeros at the end -/

open Binary64 (dropZeros)

/-- The digits are those that are kept, and zeros. -/
theorem dropZeros_append (ds : List Char) :
    ∃ k, ds = dropZeros ds ++ List.replicate k '0' := by
  have hzeros : ds.reverse.takeWhile (· == '0') =
      List.replicate (ds.reverse.takeWhile (· == '0')).length '0' :=
    List.eq_replicate_iff.mpr ⟨rfl, fun c hc => by
      simpa using List.all_eq_true.mp List.all_takeWhile c hc⟩
  refine ⟨(ds.reverse.takeWhile (· == '0')).length, ?_⟩
  have hsplit := List.takeWhile_append_dropWhile (p := (· == '0')) (l := ds.reverse)
  rw [hzeros] at hsplit
  have hreverse := congrArg List.reverse hsplit
  rw [List.reverse_append, List.reverse_replicate, List.reverse_reverse] at hreverse
  exact hreverse.symm

/-- The first digit is kept if it is not a zero. -/
theorem dropZeros_eq_cons (hc : c ≠ '0') : ∃ s, dropZeros (c :: r) = c :: s := by
  have hlast : [c].dropWhile (· == '0') = [c] := List.dropWhile_cons_of_neg (by simpa using hc)
  unfold dropZeros
  rw [List.reverse_cons, List.dropWhile_append, hlast]
  split
  · exact ⟨[], rfl⟩
  · exact ⟨_, List.reverse_append⟩

end Montage
