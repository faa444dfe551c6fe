/-
Decimal text of floating-point numbers.

`ofDecimal` reads `digits * 10 ^ exponent`, rounded once.  `shortest` gives the
fewest digits that read back: for 1, 2, … 17 digits it tries the two neighbours
of the number on that decimal grid, and takes the nearer one if both read back.
`general` rounds to six digits and `fixed` to a number of places.

`Layout` holds the decisions of a printed form: up to which power of ten a number is
written positionally, and whether a whole number keeps its `.0`.
-/
import Montage.Binary64.Basic

namespace Montage.Binary64

/-- The number nearest to `digits * 10 ^ exponent`.  A power of ten far outside the range
decides without being computed. -/
def ofDecimal (negative : Bool) (digits : Nat) (exponent : Int) : Binary64 :=
  if digits = 0 then zero negative
  else if 400 < exponent then infinite negative
  else if exponent + Nat.log2 digits + 1 < -400 then zero negative
  else if 0 ≤ exponent then ofRatio negative (digits * Nat.pow 10 exponent.toNat) 1
  else ofRatio negative digits (Nat.pow 10 (-exponent).toNat)

/-- A decimal number `digits * 10 ^ exponent`. -/
structure Decimal where
  digits : Nat
  exponent : Int
deriving DecidableEq

/-- The number that a decimal reads as. -/
def Decimal.toBinary64 (negative : Bool) (d : Decimal) : Binary64 :=
  ofDecimal negative d.digits d.exponent

/-- Whether `a / d` is at least `10 ^ k`. -/
def reaches (a d : Nat) (k : Int) : Bool :=
  if 0 ≤ k then d * Nat.pow 10 k.toNat ≤ a else d ≤ a * Nat.pow 10 (-k).toNat

/-- The greatest `k` with `10 ^ k ≤ a / d`, for positive `a` and `d`: the powers of two give
it up to one. -/
def tenPower (a d : Nat) : Int :=
  let k := ((Nat.log2 a : Int) - Nat.log2 d - 1) * 30102999566 / 100000000000
  if reaches a d (k + 1) then k + 1 else if reaches a d k then k else k - 1

/-- The quotient `a / d` over `10 ^ k` as a fraction. -/
def overTenPower (a d : Nat) (k : Int) : Nat × Nat :=
  if 0 ≤ k then (a, d * Nat.pow 10 k.toNat) else (a * Nat.pow 10 (-k).toNat, d)

/-- The neighbour of `x` on the grid of `10 ^ k` that reads back as `x`, the nearer one if
both do, and of two equally near the even one. -/
def onGrid? (x : Binary64) (k : Int) : Option Decimal :=
  let (a, d) := overTenPower x.units one k
  let below : Decimal := ⟨a / d, k⟩
  let above : Decimal := ⟨a / d + 1, k⟩
  let near : Decimal := ⟨divToEven a d, k⟩
  [near, below, above].find? fun c => c.toBinary64 x.isNegative = x

/-- The fewest digits that read back as a finite number; all of its digits if none of 17 do. -/
def shortest (x : Binary64) : Decimal :=
  if x.isZero then ⟨0, 0⟩
  else
    let k := tenPower x.units one
    ((List.range 17).findSome? fun (n : Nat) => x.onGrid? (k - (n : Int))).getD
      ⟨x.units * Nat.pow 5 1074, -1074⟩

/-- The number rounded to `n` significant digits, a tie to the even digit. -/
def significant (x : Binary64) (n : Nat) : Decimal :=
  if x.isZero then ⟨0, 0⟩
  else
    let k := tenPower x.units one - n + 1
    let (a, d) := overTenPower x.units one k
    ⟨divToEven a d, k⟩

/-! ## Printed forms -/

/-- The decisions of a printed form. -/
structure Layout where
  /-- The largest count of digits before the point that is written without an exponent. -/
  widest : Int
  /-- Whether a whole number keeps a fraction of zero. -/
  keepFraction : Bool

/-- Documents and messages: positional below `10 ^ 16`, and always recognisable as a float. -/
def Layout.full : Layout := ⟨16, true⟩

/-- Six digits at most, and no trailing zeros. -/
def Layout.brief : Layout := ⟨6, false⟩

/-- A decimal number without trailing zeros among its digits. -/
def dropZeros (digits : List Char) : List Char :=
  (digits.reverse.dropWhile (· == '0')).reverse

/-- The exponent part: a sign and at least two digits. -/
def exponentText (e : Int) : String :=
  let n := toString e.natAbs
  "e" ++ (if e < 0 then "-" else "+") ++ (if n.length < 2 then "0" ++ n else n)

/-- The digits `ds`, with the decimal point after the first `point` of them. -/
def layOut (l : Layout) (ds : List Char) (point : Int) : String :=
  if -4 < point ∧ point ≤ l.widest then
    let n := ds.length
    if point ≤ 0 then
      "0." ++ String.ofList (List.replicate (-point).toNat '0' ++ ds)
    else if point.toNat < n then
      String.ofList (ds.take point.toNat) ++ "." ++ String.ofList (ds.drop point.toNat)
    else
      String.ofList (ds ++ List.replicate (point.toNat - n) '0') ++
        (if l.keepFraction then ".0" else "")
  else
    match ds with
    | [] => "0"
    | [c] => String.ofList [c] ++ exponentText (point - 1)
    | c :: r => String.ofList (c :: '.' :: r) ++ exponentText (point - 1)

/-- The text of a decimal number in a layout. -/
def Decimal.text (l : Layout) (d : Decimal) : String :=
  let all := (toString d.digits).toList
  if d.digits = 0 then layOut l ['0'] 1
  else layOut l (dropZeros all) (all.length + d.exponent)

/-- The text of a number whose digits are given by `f`. -/
def textWith (l : Layout) (f : Binary64 → Decimal) (x : Binary64) : String :=
  match x with
  | nan => "nan"
  | infinite n => if n then "-inf" else "inf"
  | finite n .. => (if n then "-" else "") ++ (f x).text l

/-- The fewest digits that read back, written in full. -/
def text (x : Binary64) : String := textWith .full shortest x

/-- Six significant digits. -/
def briefText (x : Binary64) : String := textWith .brief (significant · 6) x

/-- A finite number with `places` digits after the point, which is left out with none. -/
def fixedText (x : Binary64) (places : Nat) : String :=
  match x with
  | nan => "nan"
  | infinite n => if n then "-inf" else "inf"
  | finite n .. =>
    let all := (toString (divToEven (x.units * Nat.pow 10 places) one)).toList
    let ds := List.replicate (places + 1 - all.length) '0' ++ all
    (if n then "-" else "") ++ String.ofList (ds.take (ds.length - places)) ++
      (if places = 0 then "" else "." ++ String.ofList (ds.drop (ds.length - places)))

end Montage.Binary64
