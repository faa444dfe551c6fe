/-
Changing fields.

`merge` sets the named fields of an entity that really differ from their new
values, and reports each of them in a line `volume: 1.0 → 0.5`.  A field that
counts frames is reported as a duration.  Nothing to set means an empty report
and the entity as it was.

All reports are written before any field is set, and the fields are set in the
order of the entity.  A name that can be read but not changed, and a reserved one,
stop a merge only when it comes to setting them.
-/
import Montage.Project.Entity
import Montage.Duration

namespace Montage

/-- New values of fields, by the name of the field. -/
abbrev Changes := List (String × Value)

namespace Changes

variable {α : Type} [Entity α]

/-- The value of a field in a report; a whole number of frames is written as a duration. -/
def valueText (countsFrames : Bool) (fps : Number) (v : Value) : Except Fault String :=
  if v.isNull then .ok "none"
  else if countsFrames && v.isWhole then Duration.text v fps
  else
    match v with
    | .bool b => .ok (if b then "true" else "false")
    | v => .ok v.display

/-- The line of a report. -/
def line (key old new : String) : String := key ++ ": " ++ old ++ " → " ++ new

/-- Names between double underscores are reserved. -/
def isReserved (name : String) : Bool :=
  name.startsWith "__" && name.endsWith "__" && 4 < name.length

/-- What stands under a name: its key in documents, its value, and whether that is the given one
already. -/
def look (e : α) (name : String) (v : Value) : Except Fault (String × Value × Bool) :=
  match Entity.field? (α := α) name, Entity.derived e name with
  | some f, _ => .ok (Entity.key f, Entity.get e f, Entity.holds e f v)
  | none, some old => do return (name, ← old, (← old).same v)
  | none, none => if isReserved name then .ok (name, .null, false) else .error .noAttribute

/-- A name with its new value and the line that reports the change. -/
structure Edit where
  name : String
  value : Value
  line : String

/-- What a change does to an entity: nothing if the value is there already. -/
def edit? (e : α) (fps : Number) (frameFields : List String) (name : String) (v : Value) :
    Except Fault (Option Edit) := do
  let (key, old, same) ← look e name v
  if same then return none
  let countsFrames := frameFields.contains name
  let before ← valueText countsFrames fps old
  let after ← valueText countsFrames fps v
  return some ⟨name, v, line key before after⟩

/-- The changes that differ from the entity's values, in their order. -/
def edits (e : α) (fps : Number) (frameFields : List String) (changes : Changes) :
    Except Fault (List Edit) := do
  return (← changes.mapM fun c => edit? e fps frameFields c.1 c.2).filterMap id

/-- The entity with the value of an edit in a field, if one of the edits is of that field. -/
def setField (es : List Edit) (e : α) (f : Entity.Field α) : Except Fault α :=
  match es.find? (·.name == Entity.name f) with
  | some d => Entity.set e f d.value
  | none => .ok e

/-- The entity with all edits made. -/
def apply (e : α) (es : List Edit) : Except Fault α :=
  if es.all fun d => (Entity.field? (α := α) d.name).isSome then
    (Entity.fields (α := α)).foldlM (setField es) e
  else .error (.wrongType "no field has this name")

/-- The entity with all changes made, and the report. -/
def merge (e : α) (fps : Number) (frameFields : List String) (changes : Changes) :
    Except Fault (α × List String) := do
  let es ← edits e fps frameFields changes
  return (← apply e es, es.map (·.line))

/-- The entity with every named field set, whatever it held. -/
def assign (e : α) (changes : Changes) : Except Fault α :=
  changes.foldlM (fun e c =>
    match Entity.field? (α := α) c.1 with
    | none => .error (.wrongType ("unexpected field " ++ c.1))
    | some f => Entity.set e f c.2) e

end Changes

end Montage
