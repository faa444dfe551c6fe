/-
Decimal digits of any script, and the whole numbers written with them.

A decimal digit stands in a run of ten consecutive characters; `zeros` lists
the zeros of those runs.  `readInt?` reads an optional sign and digits, where
one underscore may stand between two digits and white space may stand around
the whole.
-/
import Montage.Text.Blank

namespace Montage.Text

/-- The zeros of the runs of ten decimal digits. -/
def zeros : List Nat :=
  [0x30, 0x660, 0x6f0, 0x7c0, 0x966, 0x9e6, 0xa66, 0xae6, 0xb66, 0xbe6, 0xc66, 0xce6,
   0xd66, 0xde6, 0xe50, 0xed0, 0xf20, 0x1040, 0x1090, 0x17e0, 0x1810, 0x1946, 0x19d0,
   0x1a80, 0x1a90, 0x1b50, 0x1bb0, 0x1c40, 0x1c50, 0xa620, 0xa8d0, 0xa900, 0xa9d0, 0xa9f0,
   0xaa50, 0xabf0, 0xff10, 0x104a0, 0x10d30, 0x11066, 0x110f0, 0x11136, 0x111d0, 0x112f0,
   0x11450, 0x114d0, 0x11650, 0x116c0, 0x11730, 0x118e0, 0x11950, 0x11c50, 0x11d50,
   0x11da0, 0x16a60, 0x16ac0, 0x16b50, 0x1d7ce, 0x1d7d8, 0x1d7e2, 0x1d7ec, 0x1d7f6,
   0x1e140, 0x1e2f0, 0x1e950, 0x1fbf0]

/-- The value of a decimal digit. -/
def decimal? (c : Char) : Option Nat :=
  (zeros.find? fun z => z ≤ c.toNat && c.toNat < z + 10).map (c.toNat - ·)

/-- A decimal digit of some script. -/
def isDecimal (c : Char) : Bool := (decimal? c).isSome

/-- The digit's value, and zero for any other character. -/
def digitValue (c : Char) : Nat := (decimal? c).getD 0

/-- The number that a run of digits denotes, the most significant one first. -/
def natOfDigits (s : List Char) : Nat :=
  s.foldl (fun n c => 10 * n + digitValue c) 0

/-- Digits with at most one underscore between two of them; the underscores are dropped. -/
def digitGroups? : List Char → Option (List Char)
  | [] => none
  | [c] => if isDecimal c then some [c] else none
  | c :: '_' :: r => if isDecimal c then (digitGroups? r).map (c :: ·) else none
  | c :: r => if isDecimal c then (digitGroups? r).map (c :: ·) else none

/-- White space that may surround a whole number: the separators U+001C–U+001F may not. -/
def isNumberBlank (c : Char) : Bool :=
  isBlank c && !(28 ≤ c.toNat && c.toNat ≤ 31)

/-- The whole number that a text denotes. -/
def readInt? (s : String) : Option Int :=
  match dropEndWhile isNumberBlank (s.toList.dropWhile isNumberBlank) with
  | '-' :: r => (digitGroups? r).map fun ds => -(natOfDigits ds : Int)
  | '+' :: r => (digitGroups? r).map fun ds => (natOfDigits ds : Int)
  | r => (digitGroups? r).map fun ds => (natOfDigits ds : Int)

end Montage.Text
