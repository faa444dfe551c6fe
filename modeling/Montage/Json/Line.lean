/-
Values written as JSON on one line, in ASCII: every other character is escaped, by
the two halves of its UTF-16 form if it has no shorter one.
-/
import Montage.Json.Printer

namespace Montage.Json

/-- The escape of a number of sixteen bits. -/
def escapeUnit (n : Nat) : List Char := ['\\', 'u'] ++ Text.hex 4 n

/-- A character inside a string in ASCII. -/
def asciiChar (c : Char) : List Char :=
  if c.toNat < 0x7f then escapeChar c
  else if c.toNat < 0x10000 then escapeUnit c.toNat
  else
    let n := c.toNat - 0x10000
    escapeUnit (0xd800 + n / 0x400) ++ escapeUnit (0xdc00 + n % 0x400)

/-- A string in ASCII. -/
def asciiString (s : String) : List Char := '"' :: s.toList.flatMap asciiChar ++ ['"']

mutual

/-- A value on one line. -/
def lineChars : Value → List Char
  | .null => "null".toList
  | .bool b => (if b then "true" else "false").toList
  | .int n => (toString n).toList
  | .float x => floatChars x
  | .text s => asciiString s
  | .bytes _ => []
  | .list items => '[' :: lineItems items ++ [']']
  | .object fields => '\x7b' :: lineFields fields ++ ['\x7d']

/-- The items of a list, separated by commas. -/
def lineItems : List Value → List Char
  | [] => []
  | v :: r => lineChars v ++ (if r.isEmpty then [] else ", ".toList ++ lineItems r)

/-- The entries of an object, separated by commas. -/
def lineFields : List (String × Value) → List Char
  | [] => []
  | (k, v) :: r =>
    asciiString k ++ ": ".toList ++ lineChars v ++
      (if r.isEmpty then [] else ", ".toList ++ lineFields r)

end

/-- The text of a value without bytes, on one line in ASCII. -/
def printLine (v : Value) : String := String.ofList (lineChars v)

end Montage.Json
