/-
Document values.

A project document holds values of any shape: the editor keeps what it does not
know, and the fields that it knows may hold anything too.  Integers and floats
are different values; an object keeps its entries in the order in which they
were written.

`same` compares values as the editor does: numbers by value, whatever their
kind, with `true` as one and `false` as zero; objects whatever the order of
their entries.
-/
import Montage.Number

namespace Montage

/-- A value in a document. -/
inductive Value where
  | null
  | bool (b : Bool)
  | int (n : Int)
  | float (x : Binary64)
  | text (s : String)
  | bytes (bs : List UInt8)
  | list (items : List Value)
  | object (fields : List (String × Value))

namespace Value

instance : Inhabited Value := ⟨null⟩

/-- The name of a value's kind in messages. -/
def kindName : Value → String
  | null => "NoneType"
  | bool _ => "bool"
  | int _ => "int"
  | float _ => "float"
  | text _ => "str"
  | bytes _ => "bytes"
  | list _ => "list"
  | object _ => "dict"

/-- The absent value. -/
def isNull : Value → Bool
  | null => true
  | _ => false

/-- Neither absent, false, zero nor empty. -/
def isTruthy : Value → Bool
  | null => false
  | bool b => b
  | int n => n != 0
  | float x => !x.isZero
  | text s => !s.isEmpty
  | bytes bs => !bs.isEmpty
  | list items => !items.isEmpty
  | object fields => !fields.isEmpty

/-- The number that a value stands for, a truth value as one or zero. -/
def number? : Value → Option Number
  | bool b => some (.int (if b then 1 else 0))
  | int n => some (.int n)
  | float x => some (.float x)
  | _ => none

/-- A number as a value. -/
def ofNumber : Number → Value
  | .int n => int n
  | .float x => float x

/-- The number that a value stands for, as an operand. -/
def toNumber (v : Value) : Except Fault Number :=
  match v.number? with
  | some a => .ok a
  | none => .error (.wrongType ("unsupported operand type: '" ++ v.kindName ++ "'"))

/-- A whole number or a truth value. -/
def isWhole : Value → Bool
  | bool _ | int _ => true
  | _ => false

/-- The value of an entry, `null` if there is none. -/
def entry (fields : List (String × Value)) (key : String) : Value :=
  (fields.lookup key).getD null

/-- The entries with `key` set to `v`: in place if it is there, else at the end. -/
def put (key : String) (v : Value) : List (String × Value) → List (String × Value)
  | [] => [(key, v)]
  | f :: r => if f.1 == key then (key, v) :: r else f :: put key v r

/-- Whether two scalar values are the same. -/
def sameScalar : Value → Value → Bool
  | null, null => true
  | text a, text b => a == b
  | bytes a, bytes b => a == b
  | a, b =>
    match a.number?, b.number? with
    | some x, some y => x.same y
    | _, _ => false

mutual

/-- Whether two values are the same. -/
def same : Value → Value → Bool
  | list a, list b => sameItems a b
  | object a, object b => a.length == b.length && sameFields a b
  | null, b => sameScalar null b
  | bool a, b => sameScalar (bool a) b
  | int a, b => sameScalar (int a) b
  | float a, b => sameScalar (float a) b
  | text a, b => sameScalar (text a) b
  | bytes a, b => sameScalar (bytes a) b
  | _, _ => false

/-- Whether two lists hold the same values in the same order. -/
def sameItems : List Value → List Value → Bool
  | [], [] => true
  | a :: r, b :: s => same a b && sameItems r s
  | _, _ => false

/-- Whether every entry of the first list has the same value in the second. -/
def sameFields : List (String × Value) → List (String × Value) → Bool
  | [], _ => true
  | (k, a) :: r, fs =>
    (match fs.lookup k with
      | some b => same a b
      | none => false) && sameFields r fs

end

/-- Whether a value is the given text. -/
def isText (s : String) : Value → Bool
  | text t => t == s
  | _ => false

/-- The text in a value. -/
def text? : Value → Option String
  | text s => some s
  | _ => none

/-- Whether a value can be looked up by hashing: a list or an object cannot. -/
def isHashable : Value → Bool
  | list _ | object _ => false
  | _ => true

/-- Values of which each can be looked up by hashing. -/
def requireHashable (vs : List Value) : Except Fault Unit :=
  match vs.find? (!·.isHashable) with
  | none => .ok ()
  | some v => .error (.wrongType ("unhashable type: '" ++ v.kindName ++ "'"))

/-- So many times a value: a number multiplied, a text or a list repeated. -/
def times (n : Nat) : Value → Except Fault Value
  | text s => .ok (text (String.join (List.replicate n s)))
  | bytes bs => .ok (bytes (List.replicate n bs).flatten)
  | list items => .ok (list (List.replicate n items).flatten)
  | v => do return ofNumber (← (Number.int n).mul (← v.toNumber))

end Value

end Montage
