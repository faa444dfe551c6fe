/-
Elements: what stands on a page.

A text, an image, a video or a group.  Besides its id and its kind an element
holds what the document gave, of whatever shape; only an alignment is always one
of the keywords.  Entries of the document that are no field are kept in `extra`.
-/
import Montage.Project.Entity
import Montage.Project.Extra
import Montage.Project.Keyword

namespace Montage

/-- An element of a page. -/
structure Element where
  id : Value
  kind : ElementKind
  left : Value := .int 0
  top : Value := .int 0
  width : Value := .int 0
  height : Value := .int 0
  zIndex : Value := .null
  text : Value := .null
  src : Value := .null
  fontSize : Value := .null
  color : Value := .null
  fontFamily : Value := .null
  fontWeight : Value := .null
  textAlign : Option TextAlign := none
  opacity : Value := .null
  rotation : Value := .null
  /-- Frames before the element appears. -/
  delay : Value := .null
  /-- Frames for which the element is seen; absent for the whole page. -/
  duration : Value := .null
  animation : Value := .null
  /-- The entries of the document that are no field. -/
  extra : Extra := {}

namespace Element

/-- The fields of an element.  All but the kind can be changed. -/
inductive Field where
  | id
  | kind
  | left
  | top
  | width
  | height
  | zIndex
  | text
  | src
  | fontSize
  | color
  | fontFamily
  | fontWeight
  | textAlign
  | opacity
  | rotation
  | delay
  | duration
  | animation
  | extra
deriving DecidableEq, Repr

namespace Field

/-- The name of a field in commands. -/
def name : Field → String
  | id => "id"
  | kind => "type"
  | left => "left"
  | top => "top"
  | width => "width"
  | height => "height"
  | zIndex => "z_index"
  | text => "text"
  | src => "src"
  | fontSize => "font_size"
  | color => "color"
  | fontFamily => "font_family"
  | fontWeight => "font_weight"
  | textAlign => "text_align"
  | opacity => "opacity"
  | rotation => "rotation"
  | delay => "delay"
  | duration => "duration"
  | animation => "animation"
  | extra => "extra"

/-- The name of a field in documents. -/
def key : Field → String
  | zIndex => "zIndex"
  | fontSize => "fontSize"
  | fontFamily => "fontFamily"
  | fontWeight => "fontWeight"
  | textAlign => "textAlign"
  | f => f.name

/-- The fields that a document holds under their own key, in its order. -/
def keyed : List Field :=
  [left, top, width, height, zIndex, text, src, fontSize, color, fontFamily, fontWeight,
   textAlign, opacity, rotation, delay, duration, animation]

/-- All fields. -/
def all : List Field := [id, kind] ++ keyed ++ [extra]

end Field

/-- The alignment as a value. -/
def alignValue : Option TextAlign → Value
  | none => .null
  | some a => .text a.name

/-- The alignment that a value stands for. -/
def alignOf (v : Value) : Except Fault (Option TextAlign) :=
  match v with
  | .null => .ok none
  | v =>
    match v.text?.bind TextAlign.ofName? with
    | some a => .ok (some a)
    | none => .error (.badValue (v.quoted ++ " is not a valid TextAlign"))

/-- The value of a field. -/
def get (e : Element) : Field → Value
  | .id => e.id
  | .kind => .text e.kind.name
  | .left => e.left
  | .top => e.top
  | .width => e.width
  | .height => e.height
  | .zIndex => e.zIndex
  | .text => e.text
  | .src => e.src
  | .fontSize => e.fontSize
  | .color => e.color
  | .fontFamily => e.fontFamily
  | .fontWeight => e.fontWeight
  | .textAlign => alignValue e.textAlign
  | .opacity => e.opacity
  | .rotation => e.rotation
  | .delay => e.delay
  | .duration => e.duration
  | .animation => e.animation
  | .extra => e.extra.value

/-- Whether a field holds a value already; no value is a kind. -/
def holds (e : Element) (f : Field) (v : Value) : Bool :=
  match f with
  | .kind => false
  | f => (e.get f).same v

/-- The element with another value of a field. -/
def set (e : Element) (f : Field) (v : Value) : Except Fault Element :=
  match f with
  | .id => .ok { e with id := v }
  | .kind => .error .noAttribute
  | .left => .ok { e with left := v }
  | .top => .ok { e with top := v }
  | .width => .ok { e with width := v }
  | .height => .ok { e with height := v }
  | .zIndex => .ok { e with zIndex := v }
  | .text => .ok { e with text := v }
  | .src => .ok { e with src := v }
  | .fontSize => .ok { e with fontSize := v }
  | .color => .ok { e with color := v }
  | .fontFamily => .ok { e with fontFamily := v }
  | .fontWeight => .ok { e with fontWeight := v }
  | .textAlign => do return { e with textAlign := ← alignOf v }
  | .opacity => .ok { e with opacity := v }
  | .rotation => .ok { e with rotation := v }
  | .delay => .ok { e with delay := v }
  | .duration => .ok { e with duration := v }
  | .animation => .ok { e with animation := v }
  | .extra => do return { e with extra := ← Extra.ofValue v }

/-- The last part of a path, trailing slashes left out. -/
def fileName (path : String) : String :=
  let cs := Text.dropEndWhile (· == '/') path.toList
  String.ofList (cs.reverse.takeWhile (· != '/')).reverse

/-- A short label: the quoted text of a text, the file name of another element. -/
def displayName (e : Element) : Except Fault String :=
  if e.kind = .text then
    .ok (if e.text.isTruthy then "\"" ++ e.text.display ++ "\"" else "Text element")
  else if e.src.isTruthy then
    match e.src with
    | .text s => .ok (fileName s)
    | .bytes _ => .error (.wrongType "bytes are no path")
    | _ => .error .noAttribute
  else .ok (e.kind.name ++ " element")

/-- What can be read of an element but not changed. -/
def derived (e : Element) (name : String) : Option (Except Fault Value) :=
  if name == "display_name" then some (e.displayName.map .text) else none

instance : Entity Element where
  Field := Field
  fields := Field.all
  name := Field.name
  key := Field.key
  id := Element.id
  get := get
  holds := holds
  set := set
  derived := derived

/-! ## Writing out -/

/-- A keyword written out. -/
def outlineOf (type name : String) : String :=
  "<" ++ type ++ "." ++ name.toUpper ++ ": '" ++ name ++ "'>"

/-- A field written out. -/
def outlineField (e : Element) (f : Field) : String :=
  f.name ++ "=" ++
    (match f with
      | .kind => outlineOf "ElementType" e.kind.name
      | .textAlign =>
        match e.textAlign with
        | some a => outlineOf "TextAlign" a.name
        | none => Value.null.quoted
      | f => (e.get f).quoted)

/-- The element written out with all its fields. -/
def outline (e : Element) : String :=
  "Element(" ++ ", ".intercalate (Field.all.map e.outlineField) ++ ")"

/-- A list of elements written out. -/
def outlines (es : List Element) : String := "[" ++ ", ".intercalate (es.map outline) ++ "]"

end Element

end Montage
