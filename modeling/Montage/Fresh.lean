/-
Fresh ids.

An id is a word, the time in milliseconds and a drawn suffix.  A drawn id that
is already taken is dropped and the next one drawn, until one is free or the
source has no more suffixes; of the suffixes nothing is assumed, and one may come
again and again.  The clock is read for every draw, and nothing is assumed of how
it goes on.  Draws are counted, and a dropped one counts too.
-/
import Montage.Project.Basic
import Montage.Value.Sequence

namespace Montage

/-- The clock and the source of suffixes. -/
structure IdSource where
  /-- The time in milliseconds from which `elapsed` counts. -/
  millis : Nat
  /-- The milliseconds that have passed at each draw. -/
  elapsed : Nat → Nat := fun _ => 0
  /-- The suffix of each draw. -/
  suffix : Nat → String
  /-- The number of draws that the source has. -/
  draws : Nat := 36 ^ 9
  /-- The time as a text. -/
  now : String

namespace IdSource

/-- The id of the `n`-th draw. -/
def candidate (source : IdSource) (word : String) (n : Nat) : String :=
  word ++ "-" ++ toString (source.millis + source.elapsed n) ++ "-" ++ source.suffix n

/-- The first id from the `n`-th draw on that is not taken, and the number of the next draw.  A
source that has none among its next `left` draws has failed. -/
def search (source : IdSource) (word : String) (taken : List Value) :
    (left : Nat) → (n : Nat) → Except Fault String × Nat
  | 0, n => (.error .collaborator, n)
  | k + 1, n =>
    let id := source.candidate word n
    if taken.any (·.isText id) then source.search word taken k (n + 1) else (.ok id, n + 1)

/-- A fresh id, and the number of the next draw. -/
def fresh (source : IdSource) (word : String) (taken : List Value) (n : Nat) :
    Except Fault String × Nat :=
  source.search word taken (source.draws - n) n

end IdSource

/-- A computation that draws ids. -/
abbrev Drawing := ExceptT Fault (StateM Nat)

/-- A fresh id. -/
def drawId (source : IdSource) (word : String) (taken : List Value) : Drawing String :=
  ExceptT.mk fun n => source.fresh word taken n

/-- The taken ids that a value lists; they are looked up by hashing. -/
def takenIn (v : Value) : Except Fault (List Value) := do
  let ids ← v.sequence
  Value.requireHashable ids
  return ids

/-- A blank page. -/
def blankPage (source : IdSource) (duration name : Value) (taken : List Value) :
    Drawing Page := do
  let id ← drawId source "page" taken
  return { id := .text id, name, duration }

/-- The frames of a new page or audio track. -/
def defaultFrames (fps : Int) : Value := .int (Limits.defaultSeconds * fps)

/-- A project with a single blank page, which is selected. -/
def newProject (source : IdSource) (name : Value) (fps width height : Int) : Drawing Project := do
  let page ← blankPage source (defaultFrames fps) (.text "Page 1") []
  let id ← drawId source "project" []
  return {
    id, name
    composition := some { fps, width, height, pages := [page] }
    appState := { selectedPageId := page.id } }

end Montage
