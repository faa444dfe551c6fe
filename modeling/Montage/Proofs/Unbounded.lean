/-
# Infinities and what is not a number

Arithmetic does not lead back from a float that is not finite: sums, products and
quotients of one are not finite, a remainder of one is not a number, and none has an
integer part.  So a text for such a number of frames comes to nothing, with one
exception (`wholeNumber_of_textAt`): minus infinity is less than a second, and frames
below a second are shown as they are.
-/
import Montage.Document.Decode
import Montage.Proofs.Bounds

namespace Montage

namespace Binary64

variable {x y : Binary64}

theorem isNegative_round (n : Bool) (a d : Nat) : (round n a d).isNegative = n := by
  have hbuild : ∀ m p, (build n m p).isNegative = n := by
    intro m p
    unfold build
    split <;> rfl
  rw [round_def]
  split
  · exact hbuild _ _
  · exact hbuild _ _

theorem isFinite_add (hx : x.isFinite = false) : (x.add y).isFinite = false := by
  cases x with
  | finite => cases hx
  | nan => cases y <;> rfl
  | infinite a =>
      cases y with
      | infinite b =>
          show (if a = b then infinite a else nan).isFinite = false
          split <;> rfl
      | _ => rfl

theorem isFinite_mul (hx : x.isFinite = false) : (x.mul y).isFinite = false := by
  cases x with
  | finite => cases hx
  | nan => cases y <;> rfl
  | infinite a =>
      unfold mul
      cases y with
      | nan => rfl
      | _ =>
          dsimp only
          split <;> rfl

theorem isFinite_div (hx : x.isFinite = false) : (x.div y).isFinite = false := by
  cases x with
  | finite => cases hx
  | nan => cases y <;> rfl
  | infinite a => cases y <;> rfl

theorem remainder_eq_nan (hx : x.isFinite = false) : x.remainder y = nan := by
  cases x with
  | finite => cases hx
  | nan => cases y <;> rfl
  | infinite a => cases y <;> rfl

end Binary64

namespace Number

variable {x : Binary64} {a b : Number} {q : Binary64}

theorem toFloat_int {n : Int} {y : Binary64} (h : toFloat (.int n) = .ok y) :
    y = Binary64.ofInt n ∧ y.isFinite = true := by
  have h : (if (Binary64.ofInt n).isFinite = true then Except.ok (Binary64.ofInt n)
      else .error Fault.overflow) = .ok y := h
  split at h
  · cases h
    exact ⟨rfl, ‹_›⟩
  · cases h

theorem mul_float_eq_ok (h : (float x).mul a = .ok b) : ∃ y, b = .float (x.mul y) := by
  obtain ⟨_, hx, y, -, h⟩ : ∃ z, toFloat (.float x) = .ok z ∧ ∃ y, a.toFloat = .ok y ∧
      float (z.mul y) = b := by
    simpa only [mul, combine, bind_eq_ok, pure_eq_ok] using h
  cases hx
  exact ⟨y, h.symm⟩

theorem div_float_eq_ok (h : (float x).div a = .ok q) :
    ∃ y, a.toFloat = .ok y ∧ y.isZero = false ∧ q = x.div y := by
  unfold div at h
  obtain ⟨_, hx, h⟩ := bind_eq_ok.mp h
  obtain ⟨y, hy, h⟩ := bind_eq_ok.mp h
  cases hx
  obtain ⟨hzero, h⟩ := guard_eq_ok.mp h
  exact ⟨y, hy, by simpa using hzero, (pure_eq_ok.mp h).symm⟩

theorem mod_float_eq_ok (h : (float x).mod a = .ok b) : ∃ y, b = .float (floatMod x y) := by
  unfold mod at h
  obtain ⟨_, hx, h⟩ := bind_eq_ok.mp h
  obtain ⟨y, hy, h⟩ := bind_eq_ok.mp h
  cases hx
  obtain ⟨-, h⟩ := guard_eq_ok.mp h
  exact ⟨y, (pure_eq_ok.mp h).symm⟩

theorem isFinite_of_integerPart {f : Binary64 → Option Int} {n : Int}
    (hf : x.isFinite = false → f x = none) (h : integerPart f x = .ok n) : x.isFinite = true := by
  by_contra hx
  unfold integerPart at h
  rw [hf (by simpa using hx)] at h
  dsimp only at h
  split at h <;> cases h

end Number

namespace Duration

variable {x : Binary64} {fps : Number} {s : String}

theorem isFinite_of_roundHalfUp {n : Int} (h : roundHalfUp (.float x) = .ok n) :
    x.isFinite = true := by
  by_contra hx
  obtain ⟨a, ha, y, hy, h⟩ : ∃ a, (Number.float x).add (.float half) = .ok a ∧
      ∃ y, a.toFloat = .ok y ∧ Number.floor y = .ok n := by
    simpa only [roundHalfUp, bind_eq_ok] using h
  cases ha
  cases hy
  have hsum := Number.isFinite_of_integerPart (fun hfinite => by simp [Binary64.floor?, hfinite]) h
  rw [Binary64.isFinite_add (by simpa using hx)] at hsum
  cases hsum

theorem isFinite_of_tenthsText (h : tenthsText (.float x) fps = .ok s) : x.isFinite = true := by
  by_contra hx
  have hx : x.isFinite = false := by simpa using hx
  obtain ⟨a, ha, h⟩ := bind_eq_ok.mp h
  obtain ⟨q, hq, h⟩ := bind_eq_ok.mp h
  obtain ⟨tenths, ht, -⟩ := bind_eq_ok.mp h
  obtain ⟨y, rfl⟩ := Number.mul_float_eq_ok ha
  obtain ⟨z, -, -, rfl⟩ := Number.div_float_eq_ok hq
  have hquotient := isFinite_of_roundHalfUp ht
  rw [Binary64.isFinite_div (Binary64.isFinite_mul hx)] at hquotient
  cases hquotient

/-- What is below one frame per second is minus infinity, at a positive rate. -/
theorem eq_of_div_lt {n : Int} {q : Binary64} (hn : 0 < n) (hx : x.isFinite = false)
    (hq : (Number.float x).div (.int n) = .ok q) (hlt : q.compareInt? 1 = some .lt) :
    x = .infinite true := by
  obtain ⟨y, hy, -, rfl⟩ := Number.div_float_eq_ok hq
  obtain ⟨rfl, hfinite⟩ := Number.toFloat_int hy
  have hsign : (Binary64.ofInt n).isNegative = false := by
    rw [Binary64.ofInt, Binary64.ofRatio, Binary64.isNegative_round]
    simpa using hn.le
  cases x with
  | finite => cases hx
  | nan =>
      exfalso
      revert hlt
      cases Binary64.ofInt n <;> exact nofun
  | infinite a =>
      have hdiv : (Binary64.infinite a).div (Binary64.ofInt n) = .infinite a := by
        revert hfinite hsign
        cases Binary64.ofInt n with
        | finite m k p hc =>
            rintro - rfl
            exact congrArg Binary64.infinite (Bool.xor_false a)
        | _ => exact fun h => by cases h
      rw [hdiv] at hlt
      cases a with
      | true => rfl
      | false => cases hlt

/-- Of the floats that are not finite only minus infinity has a text. -/
theorem eq_of_text_float {n : Int} (hn : 0 < n) (hx : x.isFinite = false)
    (h : text (.float x) (.int n) = .ok s) : x = .infinite true := by
  have hzero : (Number.float x).isZero = false := by
    cases x with
    | finite => cases hx
    | _ => rfl
  -- a remainder is not a number, so neither minutes nor seconds come out even
  have hmod : ∀ a b, (Number.float x).mod a = .ok b → b.isZero = false := by
    intro a b hb
    obtain ⟨y, rfl⟩ := Number.mod_float_eq_ok hb
    unfold Number.floatMod
    rw [Binary64.remainder_eq_nan hx]
    rfl
  have htenths : tenthsText (.float x) (.int n) ≠ .ok s := by
    intro h
    rw [isFinite_of_tenthsText h] at hx
    cases hx
  unfold text at h
  obtain ⟨_, ha, h⟩ := bind_eq_ok.mp h
  cases ha
  simp only [hzero, Bool.false_eq_true, if_false] at h
  obtain ⟨q, hq, h⟩ := bind_eq_ok.mp h
  by_cases hlt : q.compareInt? 1 = some .lt
  · exact eq_of_div_lt hn hx hq hlt
  exfalso
  have hseconds : (do
      let r ← (Number.float x).mod (.int n)
      if r.isZero then return (← (Number.float x).floorDiv (.int n)).text ++ "s"
      else tenthsText (.float x) (.int n)) ≠ Except.ok s := by
    intro h
    obtain ⟨r, hr, h⟩ := bind_eq_ok.mp h
    rw [hmod _ _ hr] at h
    exact htenths h
  rw [if_neg hlt] at h
  split at h
  · obtain ⟨minute, -, h⟩ := bind_eq_ok.mp h
    obtain ⟨r, hr, h⟩ := bind_eq_ok.mp h
    rw [hmod _ _ hr] at h
    exact hseconds h
  · exact hseconds h

/-- What has a text as frames stands for a whole number of them, or is minus infinity. -/
theorem wholeNumber_of_textAt {n : Int} (hn : 0 < n) {v : Value} (h : textAt n v = .ok s) :
    (∃ k, Document.wholeNumber v = .ok k) ∨ v = .float (.infinite true) := by
  unfold textAt at h
  have hnumber : ∃ a, v.toNumber = .ok a := by
    unfold text at h
    obtain ⟨a, ha, -⟩ := bind_eq_ok.mp h
    exact ⟨a, ha⟩
  cases v with
  | bool b => exact .inl ⟨_, rfl⟩
  | int k => exact .inl ⟨k, rfl⟩
  | float x =>
      by_cases hx : x.isFinite = true
      · refine .inl ⟨x.signedUnits.tdiv Binary64.one, ?_⟩
        simp only [Document.wholeNumber, Number.truncate, Number.integerPart, Binary64.truncate?,
          hx, if_true]
      · exact .inr (congrArg Value.float (eq_of_text_float hn (by simpa using hx) h))
  | _ =>
      obtain ⟨_, ha⟩ := hnumber
      cases ha

end Duration
end Montage
