/-
Durations: frames, milliseconds, seconds and minutes.

A document counts time in frames.  A user types `1000` or `500ms`, `1.5s`, `2m`
or `30f`: `read` turns that into frames at a frame rate, and `text` writes
frames back in the most readable unit.  A count of frames is rounded half up.

Both work on numbers of either kind, since a document may hold a float where
frames are expected and a frame rate need not be whole.
-/
import Montage.Value.Text
import Montage.Text.Digit

namespace Montage.Duration

/-! ## Conversions -/

/-- One half. -/
def half : Binary64 := Binary64.ofRatio false 1 2

/-- The nearest integer, a half rounded up; the number is rounded to a float after the half
is added. -/
def roundHalfUp (a : Number) : Except Fault Int := do
  Number.floor (← (← a.add (.float half)).toFloat)

/-- The nearest whole frame. -/
def framesOfMs (ms fps : Number) : Except Fault Int := do
  roundHalfUp (← (Number.float (← ms.div (.int 1000))).mul fps)

/-- Frames in whole milliseconds. -/
def msOfFrames (frames fps : Number) : Except Fault Int := do
  roundHalfUp (← (Number.float (← frames.div fps)).mul (.int 1000))

/-- The nearest whole frame. -/
def framesOfSeconds (seconds fps : Number) : Except Fault Int := do
  roundHalfUp (← seconds.mul fps)

/-- Frames in seconds. -/
def secondsOfFrames (frames fps : Number) : Except Fault Binary64 :=
  frames.div fps

/-! ## Reading -/

/-- What a number counts. -/
inductive Scale where
  | frames
  | milliseconds
  | seconds
  | minutes
deriving DecidableEq, Repr

/-- The scale of the letters after a number; none stand for milliseconds.  A long `ſ` passes
for an `s`, but only the plain letter makes seconds or milliseconds: the others are minutes. -/
def scale? : List Char → Option Scale
  | [] => some .milliseconds
  | [c] =>
    if c == 'f' || c == 'F' then some .frames
    else if c == 's' || c == 'S' then some .seconds
    else if c == 'm' || c == 'M' || c == 'ſ' then some .minutes
    else none
  | [c, d] =>
    if c == 'm' || c == 'M' then
      if d == 's' || d == 'S' then some .milliseconds
      else if d == 'ſ' then some .minutes
      else none
    else none
  | _ => none

/-- An unsigned decimal number. -/
structure Amount where
  whole : List Char
  fraction : List Char
deriving DecidableEq

/-- The value of an amount. -/
def Amount.value (a : Amount) : Binary64 :=
  Binary64.ofDecimal false (Text.natOfDigits (a.whole ++ a.fraction)) (-a.fraction.length)

/-- The amount at the front: digits, and a point if more digits follow it. -/
def amount? (cs : List Char) : Option (Amount × List Char) :=
  let whole := cs.takeWhile Text.isDecimal
  if whole.isEmpty then none
  else
    match cs.dropWhile Text.isDecimal with
    | '.' :: r =>
      if r.head?.any Text.isDecimal then
        some (⟨whole, r.takeWhile Text.isDecimal⟩, r.dropWhile Text.isDecimal)
      else some (⟨whole, []⟩, '.' :: r)
    | r => some (⟨whole, []⟩, r)

/-- The amount and the scale of a duration, with white space allowed around the two. -/
def parts? (s : String) : Option (Amount × Scale) := do
  let (a, r) ← amount? (Text.stripChars s.toList)
  return (a, ← scale? r)

/-- An amount on a scale in frames. -/
def framesOf (a : Amount) (scale : Scale) (fps : Number) : Except Fault Int :=
  let x := Number.float a.value
  match scale with
  | .frames => roundHalfUp x
  | .milliseconds => framesOfMs x fps
  | .seconds => framesOfSeconds x fps
  | .minutes => do framesOfSeconds (← x.mul (.int 60)) fps

/-- The frames of a duration, none if the text is no duration. -/
def read (s : String) (fps : Number) : Except Fault (Option Int) :=
  match parts? s with
  | none => .ok none
  | some (a, scale) => (framesOf a scale fps).map some

/-! ## Writing -/

/-- Tenths of a second. -/
def tenthsText (n fps : Number) : Except Fault String := do
  let tenths ← roundHalfUp (.float (← (← n.mul (.int 10)).div fps))
  let seconds ← (Number.int tenths).div (.int 10)
  return seconds.fixedText 1 ++ "s"

/-- Frames in the most readable unit: frames below a second, whole minutes, whole seconds,
and tenths of a second otherwise. -/
def text (frames : Value) (fps : Number) : Except Fault String := do
  let n ← frames.toNumber
  if n.isZero then return "0f"
  let seconds ← n.div fps
  if seconds.compareInt? 1 = some .lt then return frames.display ++ "f"
  if seconds.compareInt? 60 = some .gt || seconds.compareInt? 60 = some .eq then
    let minute ← fps.mul (.int 60)
    if (← n.mod minute).isZero then return (← n.floorDiv minute).text ++ "m"
  if (← n.mod fps).isZero then return (← n.floorDiv fps).text ++ "s"
  tenthsText n fps

/-- Frames in the most readable unit at a whole frame rate. -/
def textAt (fps : Int) (frames : Value) : Except Fault String :=
  text frames (.int fps)

end Montage.Duration
