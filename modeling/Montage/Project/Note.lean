/-
Notes: annotations at a point in time.
-/
import Montage.Project.Entity

namespace Montage

/-- An annotation. -/
structure Note where
  id : Value
  /-- The frame at which the note stands. -/
  time : Value
  text : Value
  createdAt : Value := .text ""
  updatedAt : Value := .null

namespace Note

/-- The fields of a note that can be changed. -/
inductive Field where
  | id
  | time
  | text
  | createdAt
  | updatedAt
deriving DecidableEq, Repr

namespace Field

/-- The name of a field in commands. -/
def name : Field → String
  | id => "id"
  | time => "time"
  | text => "text"
  | createdAt => "created_at"
  | updatedAt => "updated_at"

/-- The name of a field in documents. -/
def key : Field → String
  | createdAt => "createdAt"
  | updatedAt => "updatedAt"
  | f => f.name

/-- All fields. -/
def all : List Field := [id, time, text, createdAt, updatedAt]

end Field

/-- The value of a field. -/
def get (n : Note) : Field → Value
  | .id => n.id
  | .time => n.time
  | .text => n.text
  | .createdAt => n.createdAt
  | .updatedAt => n.updatedAt

/-- The note with another value of a field. -/
def set (n : Note) (f : Field) (v : Value) : Except Fault Note :=
  match f with
  | .id => .ok { n with id := v }
  | .time => .ok { n with time := v }
  | .text => .ok { n with text := v }
  | .createdAt => .ok { n with createdAt := v }
  | .updatedAt => .ok { n with updatedAt := v }

instance : Entity Note where
  Field := Field
  fields := Field.all
  name := Field.name
  key := Field.key
  id := Note.id
  get := get
  set := set

end Note

end Montage
