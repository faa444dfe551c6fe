/-
Pages: the scenes of a composition, one after the other.
-/
import Montage.Project.Element

namespace Montage

/-- A scene that lasts a number of frames. -/
structure Page where
  id : Value
  name : Value
  duration : Value
  backgroundColor : Value := .text "white"
  elements : List Element := []
  /-- What stands in the place of the elements when there are none. -/
  noElements : Value := .list []

namespace Page

/-- The fields of a page that can be changed. -/
inductive Field where
  | id
  | name
  | duration
  | backgroundColor
  | elements
deriving DecidableEq, Repr

namespace Field

/-- The name of a field in commands. -/
def label : Field → String
  | id => "id"
  | name => "name"
  | duration => "duration"
  | backgroundColor => "background_color"
  | elements => "elements"

/-- The name of a field in documents. -/
def key : Field → String
  | backgroundColor => "backgroundColor"
  | f => f.label

/-- All fields. -/
def all : List Field := [id, name, duration, backgroundColor, elements]

end Field

/-- The value of a field; elements are written out. -/
def get (p : Page) : Field → Value
  | .id => p.id
  | .name => p.name
  | .duration => p.duration
  | .backgroundColor => p.backgroundColor
  | .elements => if p.elements.isEmpty then p.noElements else .text (Element.outlines p.elements)

/-- Whether a field holds a value already; no value is a list of elements. -/
def holds (p : Page) (f : Field) (v : Value) : Bool :=
  match f with
  | .elements => p.elements.isEmpty && p.noElements.same v
  | f => (p.get f).same v

/-- The page with a value in the place of its elements: an empty sequence takes them away, and
nothing in another one is an element. -/
def setElements (p : Page) (v : Value) : Except Fault Page := do
  match ← v.sequence with
  | [] => return { p with elements := [], noElements := v }
  | _ :: _ => .error .noAttribute

/-- The page with other elements. -/
def withElements (p : Page) (elements : List Element) : Page :=
  { p with elements, noElements := .list [] }

/-- The page with another value of a field. -/
def set (p : Page) (f : Field) (v : Value) : Except Fault Page :=
  match f with
  | .id => .ok { p with id := v }
  | .name => .ok { p with name := v }
  | .duration => .ok { p with duration := v }
  | .backgroundColor => .ok { p with backgroundColor := v }
  | .elements => p.setElements v

instance : Entity Page where
  Field := Field
  fields := Field.all
  name := Field.label
  key := Field.key
  id := Page.id
  get := get
  holds := holds
  set := set

end Page

end Montage
