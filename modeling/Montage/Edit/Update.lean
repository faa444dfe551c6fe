/-
Changing an item and moving it, in one step.

The place aimed at is computed before anything is changed, so that a sibling
that does not exist leaves the project as it was.  When neither a field nor the
place changes there is no revised project.
-/
import Montage.Edit.Collection
import Montage.Edit.Merge

namespace Montage

/-- What an update did. -/
structure Update (α : Type) where
  /-- The project after it, absent if nothing changed. -/
  revised : Option Project
  /-- The item after it. -/
  item : α
  /-- A line for each changed field. -/
  diff : List String
  /-- The item's place before it. -/
  oldIndex : Nat
  /-- The item's place after it. -/
  newIndex : Nat

namespace Update

/-- Whether a field or the place changed. -/
def changed {α : Type} (u : Update α) : Bool := !u.diff.isEmpty || u.newIndex != u.oldIndex

/-- The project after the update of `p`. -/
def project {α : Type} (u : Update α) (p : Project) : Project := u.revised.getD p

end Update

namespace Collection

/-- The place that a move aims at, none without a move. -/
def aim (c : Collection) (items : List c.Item) (index : Nat) (move : Option Move)
    (mode : MoveMode) : Except Fault (Option Int) :=
  match move with
  | none => .ok none
  | some m => do return some (← m.target (items.map Entity.id) index mode c.label).1

/-- The list with the item at `index` moved to the place aimed at, if there is one. -/
def arrange {α : Type} (items : List α) (index : Nat) (target : Option Int) :
    Except Fault (List α × Nat) :=
  match target with
  | none => .ok (items, index)
  | some t => moveItem items index t

/-- Changes the first item with an id, and moves it. -/
def update (c : Collection) (p : Project) (id : Value) (changes : Changes) (fps : Number)
    (frameFields : List String) (move : Option Move) (mode : MoveMode) :
    Except Fault (Update c.Item) := do
  let (index, item) ← c.require p id
  let items ← c.items p
  let target ← c.aim items index move mode
  let (merged, diff) ← Changes.merge item fps frameFields changes
  let (items, newIndex) ← arrange (items.set index merged) index target
  if diff.isEmpty && newIndex == index then return ⟨none, item, [], index, index⟩
  return ⟨some (c.replace p items), merged, diff, index, newIndex⟩

end Collection

end Montage
