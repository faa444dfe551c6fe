/-
Numbers: integers of any size and floating-point numbers.

An integer result stays an integer except in a true division; where an integer
meets a float it is first rounded to a float.  Comparison is exact and never
rounds.  What has no result is a fault: a division by zero, an integer beyond
the floating-point range, an integer part of an infinity or of `nan`.
-/
import Montage.Fault
import Montage.Binary64.Decimal

namespace Montage

/-- An integer or a floating-point number. -/
inductive Number where
  | int (n : Int)
  | float (x : Binary64)
deriving DecidableEq

namespace Number

instance : Inhabited Number := ⟨int 0⟩

/-- The number in floating point. -/
def toFloat : Number → Except Fault Binary64
  | int n =>
    let x := Binary64.ofInt n
    if x.isFinite then .ok x else .error .overflow
  | float x => .ok x

/-- Either zero. -/
def isZero : Number → Bool
  | int n => n == 0
  | float x => x.isZero

/-- An operation with an exact integer form and a floating-point form. -/
def combine (onInt : Int → Int → Int) (onFloat : Binary64 → Binary64 → Binary64) :
    Number → Number → Except Fault Number
  | int a, int b => .ok (int (onInt a b))
  | a, b => do return float (onFloat (← a.toFloat) (← b.toFloat))

/-- The sum. -/
def add : Number → Number → Except Fault Number := combine (· + ·) Binary64.add

/-- The difference. -/
def sub : Number → Number → Except Fault Number := combine (· - ·) Binary64.sub

/-- The product. -/
def mul : Number → Number → Except Fault Number := combine (· * ·) Binary64.mul

/-- The quotient, always a float: of two integers it is the exact quotient, rounded once. -/
def div : Number → Number → Except Fault Binary64
  | int a, int b =>
    if b = 0 then .error .divisionByZero
    else
      let x := Binary64.ofRatio (decide (a < 0) != decide (b < 0)) a.natAbs b.natAbs
      if x.isFinite then .ok x else .error .overflow
  | a, b => do
    let x ← a.toFloat
    let y ← b.toFloat
    if y.isZero then .error .divisionByZero else return x.div y

/-- The remainder with the sign of the divisor. -/
def floatMod (x y : Binary64) : Binary64 :=
  let r := x.remainder y
  if r.isZero then Binary64.zero y.isNegative
  else if !r.isNaN && y.isNegative != r.isNegative then r.add y
  else r

/-- The quotient rounded down.  The remainder is taken off first, so that the division is
all but exact and its floor is off by no more than a half. -/
def floatFloorDiv (x y : Binary64) : Binary64 :=
  let r := x.remainder y
  let q := (x.sub r).div y
  let q := if !r.isZero && !r.isNaN && y.isNegative != r.isNegative
    then q.sub (Binary64.ofInt 1) else q
  if q.isZero then Binary64.zero (x.isNegative != y.isNegative)
  else
    match q.floor? with
    | none => q
    | some n =>
      let f := Binary64.ofInt n
      if (q.sub f).compare? (Binary64.ofRatio false 1 2) = some .gt
      then f.add (Binary64.ofInt 1) else f

/-- The quotient rounded down, an integer if both numbers are. -/
def floorDiv : Number → Number → Except Fault Number
  | int a, int b => if b = 0 then .error .divisionByZero else .ok (int (a.fdiv b))
  | a, b => do
    let x ← a.toFloat
    let y ← b.toFloat
    if y.isZero then .error .divisionByZero else return float (floatFloorDiv x y)

/-- The remainder of `floorDiv`. -/
def mod : Number → Number → Except Fault Number
  | int a, int b => if b = 0 then .error .divisionByZero else .ok (int (a.fmod b))
  | a, b => do
    let x ← a.toFloat
    let y ← b.toFloat
    if y.isZero then .error .divisionByZero else return float (floatMod x y)

/-- The order of two numbers by value, none with `nan`. -/
def compare? : Number → Number → Option Ordering
  | int a, int b => some (compare a b)
  | int a, float y => (y.compareInt? a).map Ordering.swap
  | float x, int b => x.compareInt? b
  | float x, float y => x.compare? y

/-- Whether two numbers have the same value. -/
def same (a b : Number) : Bool := compare? a b == some .eq

/-- Whether the first number is smaller. -/
def lt (a b : Number) : Bool := compare? a b == some .lt

/-- Whether the first number is smaller or the same. -/
def le (a b : Number) : Bool := lt a b || same a b

/-- The integer that `f` finds for a float; the integer part of an infinity is an overflow. -/
def integerPart (f : Binary64 → Option Int) (x : Binary64) : Except Fault Int :=
  match f x with
  | some n => .ok n
  | none =>
    if x.isNaN then .error (.badValue "cannot convert float NaN to integer")
    else .error .overflow

/-- The greatest integer not above a float. -/
def floor (x : Binary64) : Except Fault Int := integerPart Binary64.floor? x

/-- The number without its fraction. -/
def truncate : Number → Except Fault Int
  | int n => .ok n
  | float x => integerPart Binary64.truncate? x

/-- An integer in decimal, a float with the fewest digits that read back. -/
def text : Number → String
  | int n => toString n
  | float x => x.text

/-- Six significant digits. -/
def briefText (a : Number) : Except Fault String := do
  return (← a.toFloat).briefText

end Number

end Montage
