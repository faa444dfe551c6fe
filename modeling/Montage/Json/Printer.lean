/-
Values written as JSON.

A list or an object stands on several lines, each level indented by two more
spaces; an empty one stands on one line.  Characters beyond ASCII stand as
themselves.  The floats without a JSON form are written `NaN`, `Infinity` and
`-Infinity`.  Bytes have no form at all: `write` refuses a value that holds any.
-/
import Montage.Value.Basic
import Montage.Text.Quoted

namespace Montage.Json

/-- A character inside a string. -/
def escapeChar (c : Char) : List Char :=
  if c == '"' then ['\\', '"']
  else if c == '\\' then ['\\', '\\']
  else if c == '\n' then ['\\', 'n']
  else if c == '\r' then ['\\', 'r']
  else if c == '\t' then ['\\', 't']
  else if c == '\x0c' then ['\\', 'f']
  else if c == '\x08' then ['\\', 'b']
  else if c.toNat < 0x20 then ['\\', 'u'] ++ Text.hex 4 c.toNat
  else [c]

/-- A string. -/
def stringChars (s : String) : List Char :=
  '"' :: s.toList.flatMap escapeChar ++ ['"']

/-- A float. -/
def floatChars (x : Binary64) : List Char :=
  match x with
  | .nan => "NaN".toList
  | .infinite n => (if n then "-Infinity" else "Infinity").toList
  | .finite .. => x.text.toList

/-- A line break and the indentation of a level. -/
def newline (level : Nat) : List Char :=
  '\n' :: List.replicate (2 * level) ' '

mutual

/-- A value, its inner lines indented below `level`. -/
def valueChars (level : Nat) : Value → List Char
  | .null => "null".toList
  | .bool b => (if b then "true" else "false").toList
  | .int n => (toString n).toList
  | .float x => floatChars x
  | .text s => stringChars s
  | .bytes _ => []
  | .list items =>
    if items.isEmpty then "[]".toList
    else '[' :: itemChars (level + 1) items ++ newline level ++ [']']
  | .object fields =>
    if fields.isEmpty then "\x7b\x7d".toList
    else '\x7b' :: fieldChars (level + 1) fields ++ newline level ++ ['\x7d']

/-- The items of a list. -/
def itemChars (level : Nat) : List Value → List Char
  | [] => []
  | v :: r =>
    newline level ++ valueChars level v ++ (if r.isEmpty then [] else ',' :: itemChars level r)

/-- The entries of an object. -/
def fieldChars (level : Nat) : List (String × Value) → List Char
  | [] => []
  | (k, v) :: r =>
    newline level ++ stringChars k ++ ": ".toList ++ valueChars level v ++
      (if r.isEmpty then [] else ',' :: fieldChars level r)

end

mutual

/-- Whether a value holds bytes at any depth. -/
def holdsBytes : Value → Bool
  | .bytes _ => true
  | .list items => anyHoldsBytes items
  | .object fields => anyFieldHoldsBytes fields
  | _ => false

/-- Whether one of the items holds bytes. -/
def anyHoldsBytes : List Value → Bool
  | [] => false
  | v :: r => holdsBytes v || anyHoldsBytes r

/-- Whether the value of one of the entries holds bytes. -/
def anyFieldHoldsBytes : List (String × Value) → Bool
  | [] => false
  | (_, v) :: r => holdsBytes v || anyFieldHoldsBytes r

end

/-- The text of a value without bytes. -/
def print (v : Value) : String := String.ofList (valueChars 0 v)

/-- The text of a value. -/
def write (v : Value) : Except Fault String :=
  if holdsBytes v then .error (.wrongType "bytes have no JSON form")
  else .ok (print v)

end Montage.Json
