/-
The text of a value in a message.

A text stands for itself at the top and is quoted inside a list or an object;
the other values are written the same way everywhere.  `brief` writes a number
with six significant digits.
-/
import Montage.Value.Basic
import Montage.Text.Quoted

namespace Montage.Value

mutual

/-- The text of a value inside another one. -/
def quoted : Value → String
  | null => "None"
  | bool b => if b then "True" else "False"
  | int n => toString n
  | float x => x.text
  | text s => Text.quoted s
  | bytes bs => Text.quotedBytes bs
  | list items => "[" ++ quotedItems items ++ "]"
  | object fields => "\x7b" ++ quotedFields fields ++ "\x7d"

/-- The items of a list, separated by commas. -/
def quotedItems : List Value → String
  | [] => ""
  | [v] => quoted v
  | v :: r => quoted v ++ ", " ++ quotedItems r

/-- The entries of an object, separated by commas. -/
def quotedFields : List (String × Value) → String
  | [] => ""
  | [(k, v)] => Text.quoted k ++ ": " ++ quoted v
  | (k, v) :: r => Text.quoted k ++ ": " ++ quoted v ++ ", " ++ quotedFields r

end

/-- The text of a value. -/
def display : Value → String
  | text s => s
  | v => v.quoted

/-- The text of a number with six significant digits; nothing else has one. -/
def brief (v : Value) : Except Fault String :=
  match v.number? with
  | some a => a.briefText
  | none => .error (.wrongType ("unsupported format for '" ++ v.kindName ++ "'"))

end Montage.Value
