/-
Entities: the parts of a project that have an id and can be changed field by field.

An entity type lists its fields in the order of a document.  A field has two
names: `name` in commands and changes, and `key` in documents and reports.
A change that the field cannot hold is refused.  The id is a text unless a change
put another value in its place.
-/
import Montage.Value.Basic

namespace Montage

/-- A part of a project with an id and named fields. -/
class Entity (α : Type) where
  /-- The fields. -/
  Field : Type
  /-- All fields, in their order in a document. -/
  fields : List Field
  /-- The name in commands. -/
  name : Field → String
  /-- The name in documents. -/
  key : Field → String
  /-- The id. -/
  id : α → Value
  /-- The value of a field, as reports show it. -/
  get : α → Field → Value
  /-- Whether a field holds a value already. -/
  holds : α → Field → Value → Bool := fun e f v => (get e f).same v
  /-- The entity with another value of a field. -/
  set : α → Field → Value → Except Fault α
  /-- What can be read under a name but not changed. -/
  derived : α → String → Option (Except Fault Value) := fun _ _ => none

namespace Entity

variable {α : Type} [Entity α]

/-- The field with a name. -/
def field? (name : String) : Option (Field α) :=
  (fields (α := α)).find? fun f => Entity.name f == name

/-- Whether the entity has an id. -/
def hasId (e : α) (id : Value) : Bool := (Entity.id e).same id

end Entity

end Montage
