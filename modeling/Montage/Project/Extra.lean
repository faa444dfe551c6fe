/-
What a document holds beside the known entries.

The entries are given by a value: an object, or a sequence of pairs of a key and
a value.  In the written document each of them takes the place of an entry with
its key, so of two with one key the last one counts.
-/
import Montage.Value.Sequence
import Montage.Value.Text

namespace Montage

/-- Entries beside the known ones, with the value that gave them. -/
structure Extra where
  /-- The entries. -/
  entries : List (String × Value) := []
  /-- The value that gave them. -/
  value : Value := .object entries

namespace Extra

/-- The key that a value stands for; only a value that can be looked up is one. -/
def keyOf (v : Value) : Except Fault String := do
  Value.requireHashable [v]
  match v with
  | .null => return "null"
  | .bool b => return if b then "true" else "false"
  | v => return v.display

/-- The `i`-th pair of a sequence. -/
def pair (i : Nat) (v : Value) : Except Fault (String × Value) :=
  match v.sequence with
  | .error _ =>
    .error (.wrongType ("cannot convert dictionary update sequence element #" ++ toString i ++
      " to a sequence"))
  | .ok [key, value] => do return (← keyOf key, value)
  | .ok items =>
    .error (.badValue ("dictionary update sequence element #" ++ toString i ++ " has length " ++
      toString items.length ++ "; 2 is required"))

/-- The pairs of a sequence, from the `i`-th on. -/
def pairs : (i : Nat) → List Value → Except Fault (List (String × Value))
  | _, [] => .ok []
  | i, v :: rest => do return (← pair i v) :: (← pairs (i + 1) rest)

/-- The entries that a value gives. -/
def ofValue (v : Value) : Except Fault Extra :=
  match v with
  | .object fields => .ok { entries := fields }
  | v => do return { entries := ← pairs 0 (← v.sequence), value := v }

end Extra

end Montage
