/-
Binary floating point of 64 bits.

A finite number is a sign and a magnitude, counted in units of `2 ^ -1074`, the
least positive magnitude: `m * 2 ^ p` units with a significand `m` below
`2 ^ 53` that is at least `2 ^ 52` unless `p` is zero.  So every magnitude has
one form, and two finite numbers are equal exactly when sign, `m` and `p` are.

`round` takes the exact magnitude `a / d` units to the nearest number, a tie to
the even significand, and to an infinity beyond the largest one.  Each operation
computes its exact result in natural numbers and rounds it once.
-/
namespace Montage

/-- The one form of a magnitude `m * 2 ^ p`. -/
def Canonical (m p : Nat) : Prop :=
  m < Nat.pow 2 53 ∧ (Nat.pow 2 52 ≤ m ∨ p = 0) ∧ p ≤ 2045

instance (m p : Nat) : Decidable (Canonical m p) :=
  inferInstanceAs (Decidable (_ ∧ _))

/-- A floating-point number. -/
inductive Binary64 where
  | finite (negative : Bool) (m p : Nat) (canonical : Canonical m p)
  | infinite (negative : Bool)
  | nan
deriving DecidableEq

namespace Binary64

/-- The number of units in one. -/
def one : Nat := Nat.pow 2 1074

/-- The number with significand `m` and exponent `p`, an infinity if `p` is too large. -/
def build (negative : Bool) (m p : Nat) : Binary64 :=
  if h : Canonical m p then finite negative m p h else infinite negative

/-- The quotient `a / d` to the nearest natural number, a tie to the even one. -/
def divToEven (a d : Nat) : Nat :=
  let q := a / d
  let r := a % d
  if 2 * r < d then q
  else if d < 2 * r then q + 1
  else if q % 2 = 0 then q
  else q + 1

/-- The number nearest to `a / d` units, a tie to the even significand. -/
def round (negative : Bool) (a d : Nat) : Binary64 :=
  let p := Nat.log2 (a / d) - 52
  let m := divToEven a (d * Nat.pow 2 p)
  if m = Nat.pow 2 53 then build negative (Nat.pow 2 52) (p + 1) else build negative m p

/-- A zero. -/
def zero (negative : Bool) : Binary64 :=
  finite negative 0 0 (by decide)

instance : Inhabited Binary64 := ⟨zero false⟩

/-- The magnitude of a finite number in units. -/
def units : Binary64 → Nat
  | finite _ m p _ => m * Nat.pow 2 p
  | _ => 0

/-- The sign. -/
def isNegative : Binary64 → Bool
  | finite n _ _ _ => n
  | infinite n => n
  | nan => false

/-- The signed number of units of a finite number. -/
def signedUnits (x : Binary64) : Int :=
  if x.isNegative then -(x.units : Int) else x.units

/-- Neither an infinity nor `nan`. -/
def isFinite : Binary64 → Bool
  | finite .. => true
  | _ => false

/-- Not a number. -/
def isNaN : Binary64 → Bool
  | nan => true
  | _ => false

/-- An infinity. -/
def isInfinite : Binary64 → Bool
  | infinite _ => true
  | _ => false

/-- Either zero. -/
def isZero : Binary64 → Bool
  | finite _ m _ _ => m == 0
  | _ => false

/-- The number nearest to `a / d`. -/
def ofRatio (negative : Bool) (a d : Nat) : Binary64 :=
  round negative (a * one) d

/-- The number nearest to an integer. -/
def ofInt (n : Int) : Binary64 :=
  ofRatio (n < 0) n.natAbs 1

/-- The opposite number. -/
def neg : Binary64 → Binary64
  | finite n m p h => finite (!n) m p h
  | infinite n => infinite (!n)
  | nan => nan

/-- The number with the magnitude of `x` and the given sign. -/
def withSign (negative : Bool) : Binary64 → Binary64
  | finite _ m p h => finite negative m p h
  | infinite _ => infinite negative
  | nan => nan

/-- The sum; an exact zero is negative only when both terms are. -/
def add (x y : Binary64) : Binary64 :=
  match x, y with
  | nan, _ | _, nan => nan
  | infinite a, infinite b => if a = b then infinite a else nan
  | infinite a, _ => infinite a
  | _, infinite b => infinite b
  | finite .., finite .. =>
    let s := x.signedUnits + y.signedUnits
    if s = 0 then zero (x.isNegative && y.isNegative) else round (s < 0) s.natAbs 1

/-- The difference. -/
def sub (x y : Binary64) : Binary64 := add x (neg y)

/-- The product. -/
def mul (x y : Binary64) : Binary64 :=
  let n := x.isNegative != y.isNegative
  match x, y with
  | nan, _ | _, nan => nan
  | infinite _, _ => if y.isZero then nan else infinite n
  | _, infinite _ => if x.isZero then nan else infinite n
  | finite .., finite .. => round n (x.units * y.units) one

/-- The quotient; a nonzero number over zero is infinite. -/
def div (x y : Binary64) : Binary64 :=
  let n := x.isNegative != y.isNegative
  match x, y with
  | nan, _ | _, nan => nan
  | infinite _, infinite _ => nan
  | infinite _, _ => infinite n
  | _, infinite _ => zero n
  | finite .., finite .. =>
    if y.isZero then (if x.isZero then nan else infinite n)
    else round n (x.units * one) y.units

/-- The remainder of `x` by `y` with the sign of `x`, always exact. -/
def remainder (x y : Binary64) : Binary64 :=
  match x, y with
  | nan, _ | _, nan => nan
  | infinite _, _ => nan
  | finite .., infinite _ => x
  | finite .., finite .. =>
    if y.isZero then nan else round x.isNegative (x.units % y.units) 1

/-- The order of two numbers, none with `nan`; the two zeros are equal. -/
def compare? (x y : Binary64) : Option Ordering :=
  match x, y with
  | nan, _ | _, nan => none
  | infinite a, infinite b =>
    some (if a = b then .eq else if a then .lt else .gt)
  | infinite a, _ => some (if a then .lt else .gt)
  | _, infinite b => some (if b then .gt else .lt)
  | finite .., finite .. => some (compare x.signedUnits y.signedUnits)

/-- The order of a number against an integer, compared exactly. -/
def compareInt? (x : Binary64) (n : Int) : Option Ordering :=
  match x with
  | nan => none
  | infinite a => some (if a then .lt else .gt)
  | finite .. => some (compare x.signedUnits (n * one))

/-- The greatest integer not above a finite number. -/
def floor? (x : Binary64) : Option Int :=
  if x.isFinite then some (x.signedUnits / (one : Int)) else none

/-- A finite number without its fraction. -/
def truncate? (x : Binary64) : Option Int :=
  if x.isFinite then some (x.signedUnits.tdiv one) else none

/-- The integer nearest to a finite number, a tie to the even one. -/
def nearest? (x : Binary64) : Option Int :=
  if x.isFinite then
    let n : Int := divToEven x.units one
    some (if x.isNegative then -n else n)
  else none

end Binary64

end Montage
