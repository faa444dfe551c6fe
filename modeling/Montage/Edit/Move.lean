/-
Moving an item in a list.

A move goes before or after a position or a sibling.  A number counts slots from
the item's place (relative) or from the start of the list (absolute); anything
else is the id of a sibling.  `target` computes the place aimed at in the list as
it is before the item is taken out, and `moveItem` takes the item out and puts it
back at that place, or at the nearer end if the place is outside the list.
-/
import Montage.Value.Text
import Montage.Text.Digit

namespace Montage

/-- The sides of a position. -/
inductive Direction where
  | before
  | after
deriving DecidableEq, Repr

/-- How the place of a move is given. -/
inductive MoveMode where
  /-- A position counted from one: before it, or after it. -/
  | absolute
  /-- A number of slots towards the start, or towards the end. -/
  | relative
  /-- Next to the item with an id. -/
  | sibling
deriving DecidableEq, Repr

namespace Direction

/-- The word for a side. -/
def name : Direction → String
  | before => "before"
  | after => "after"

end Direction

namespace MoveMode

/-- The word for a mode. -/
def name : MoveMode → String
  | absolute => "absolute"
  | relative => "relative"
  | sibling => "sibling"

end MoveMode

/-- A request to move an item to one side of a position or a sibling. -/
structure Move where
  direction : Direction
  value : String
deriving DecidableEq, Repr

namespace Move

/-- The request of two options, of which at most one may be given. -/
def ofOptions (before after : Option String) : Except Fault (Option Move) :=
  match before, after with
  | some _, some _ =>
    .error (.problem (.titled .conflict ""
      "Cannot specify both `--after` and `--before`. Choose one positioning option."))
  | some b, none => .ok (some ⟨.before, b⟩)
  | none, some a => .ok (some ⟨.after, a⟩)
  | none, none => .ok none

/-- The digits of a request that is a number; one line feed may stand after them. -/
def digits? (m : Move) : Option (List Char) :=
  let cs := m.value.toList
  let ds := if cs.getLast? = some '\n' then cs.dropLast else cs
  if !ds.isEmpty && ds.all Text.isDecimal then some ds else none

/-- Whether a request is a number. -/
def isNumeric (m : Move) : Bool := m.digits?.isSome

/-- The place of a number `n`, for the item at `index`. -/
def numericTarget (direction : Direction) (mode : MoveMode) (index n : Int) : Int × MoveMode :=
  match mode, direction with
  | .absolute, .before => (n - 1, .absolute)
  | .absolute, .after => (n, .absolute)
  | _, .before => (index - n, .relative)
  | _, .after => (index + n, .relative)

/-- The place that a request aims at, for the item at `index` of the list with these ids. -/
def target (m : Move) (ids : List Value) (index : Int) (mode : MoveMode) (label : String) :
    Except Fault (Int × MoveMode) :=
  match m.digits? with
  | some ds =>
    let n : Int := Text.natOfDigits ds
    if n < 1 then
      .error (.invalid "Invalid Position"
        ("Position must be a positive integer. Got '" ++ m.value ++ "'"))
    else .ok (numericTarget m.direction mode index n)
  | none =>
    match ids.findIdx? (·.isText m.value), m.direction with
    | some j, .before => .ok (j, .sibling)
    | some j, .after => .ok (j + 1, .sibling)
    | none, _ =>
      .error (.notFound ("Reference " ++ label ++ " Not Found")
        (label ++ " with ID '" ++ m.value ++
          "' not found in the same collection for positioning.\n\nAvailable: " ++
          ", ".intercalate (ids.map Value.quoted)))

end Move

/-- The place nearest to `target` in a list of `length` items, its end included. -/
def clampTo (length : Nat) (target : Int) : Nat :=
  (max 0 (min (length : Int) target)).toNat

/-- The list with the item at `index` moved to `target`, and the place where it stands then. -/
def moveItem {α : Type} (items : List α) (index : Nat) (target : Int) :
    Except Fault (List α × Nat) :=
  match items[index]? with
  | none => .error .indexOutOfRange
  | some x =>
    let others := items.eraseIdx index
    let final := clampTo others.length target
    .ok (others.insertIdx final x, final)

/-- The place in a list of `length` items that an index names; a negative one counts from the
end. -/
def placeOf? (length : Nat) (index : Int) : Option Nat :=
  let i := if index < 0 then index + length else index
  if 0 ≤ i ∧ i < length then some i.toNat else none

/-- `placeOf?`, or the fault that there is no such place. -/
def placeOf (length : Nat) (index : Int) : Except Fault Nat :=
  match placeOf? length index with
  | some i => .ok i
  | none => .error .indexOutOfRange

end Montage
