/-
Audio tracks on the timeline of a composition.
-/
import Montage.Project.Entity

namespace Montage

/-- An audio track. -/
structure Audio where
  id : Value
  src : Value
  volume : Value := .float (Binary64.ofInt 1)
  /-- Frames before the track starts. -/
  delay : Value := .int 0
  /-- Frames for which the track plays. -/
  duration : Value := .int 150
  trimBefore : Value := .int 0
  trimAfter : Value := .int 0
  playbackRate : Value := .float (Binary64.ofInt 1)
  muted : Value := .bool false
  loop : Value := .bool false
  toneFrequency : Value := .float (Binary64.ofInt 1)

namespace Audio

/-- The fields of an audio track that can be changed. -/
inductive Field where
  | id
  | src
  | volume
  | delay
  | duration
  | trimBefore
  | trimAfter
  | playbackRate
  | muted
  | loop
  | toneFrequency
deriving DecidableEq, Repr

namespace Field

/-- The name of a field in commands. -/
def name : Field → String
  | id => "id"
  | src => "src"
  | volume => "volume"
  | delay => "delay"
  | duration => "duration"
  | trimBefore => "trim_before"
  | trimAfter => "trim_after"
  | playbackRate => "playback_rate"
  | muted => "muted"
  | loop => "loop"
  | toneFrequency => "tone_frequency"

/-- The name of a field in documents. -/
def key : Field → String
  | trimBefore => "trimBefore"
  | trimAfter => "trimAfter"
  | playbackRate => "playbackRate"
  | toneFrequency => "toneFrequency"
  | f => f.name

/-- The fields that a document holds after the id, in its order. -/
def keyed : List Field :=
  [src, volume, delay, duration, trimBefore, trimAfter, playbackRate, muted, loop,
   toneFrequency]

/-- All fields. -/
def all : List Field := id :: keyed

end Field

/-- The value of a field. -/
def get (a : Audio) : Field → Value
  | .id => a.id
  | .src => a.src
  | .volume => a.volume
  | .delay => a.delay
  | .duration => a.duration
  | .trimBefore => a.trimBefore
  | .trimAfter => a.trimAfter
  | .playbackRate => a.playbackRate
  | .muted => a.muted
  | .loop => a.loop
  | .toneFrequency => a.toneFrequency

/-- The track with another value of a field. -/
def set (a : Audio) (f : Field) (v : Value) : Except Fault Audio :=
  match f with
  | .id => .ok { a with id := v }
  | .src => .ok { a with src := v }
  | .volume => .ok { a with volume := v }
  | .delay => .ok { a with delay := v }
  | .duration => .ok { a with duration := v }
  | .trimBefore => .ok { a with trimBefore := v }
  | .trimAfter => .ok { a with trimAfter := v }
  | .playbackRate => .ok { a with playbackRate := v }
  | .muted => .ok { a with muted := v }
  | .loop => .ok { a with loop := v }
  | .toneFrequency => .ok { a with toneFrequency := v }

instance : Entity Audio where
  Field := Field
  fields := Field.all
  name := Field.name
  key := Field.key
  id := Audio.id
  get := get
  set := set

end Audio

end Montage
