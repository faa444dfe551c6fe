/-
Values as sequences.

A list is the sequence of its items, an object that of its keys, a text that of
its characters, and bytes that of their numbers; nothing else is a sequence.
-/
import Montage.Value.Basic

namespace Montage.Value

/-- The sequence that a value is. -/
def sequence (v : Value) : Except Fault (List Value) :=
  match v with
  | .list items => .ok items
  | .object fields => .ok (fields.map fun f => .text f.1)
  | .text s => .ok (s.toList.map fun c => .text (String.ofList [c]))
  | .bytes bs => .ok (bs.map fun b => .int b.toNat)
  | v => .error (.wrongType ("'" ++ v.kindName ++ "' object is not iterable"))

end Montage.Value
