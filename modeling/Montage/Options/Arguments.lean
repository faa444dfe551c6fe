/-
Arguments: what the options of a command line give.

`scan` goes through the tokens from left to right and converts every value where
it stands, so that the first thing wrong on the line is what is reported.  A
field that is given twice has the last value.  `Arguments` are the given fields
in the order of the grammar.
-/
import Montage.Options.Table

namespace Montage

/-- The fields that a line gives, with their values. -/
abbrev Arguments := List (String × Value)

namespace Arguments

/-- The value of a field. -/
def get? (a : Arguments) (field : String) : Option Value := a.lookup field

/-- The text of a field that holds one. -/
def text? (a : Arguments) (field : String) : Option String :=
  match a.lookup field with
  | some (.text s) => some s
  | _ => none

/-- The text of a field, if it is given and not empty. -/
def nonempty? (a : Arguments) (field : String) : Option String :=
  match a.text? field with
  | some s => if s.isEmpty then none else some s
  | none => none

/-- The integer of a field that holds one. -/
def int? (a : Arguments) (field : String) : Option Int :=
  match a.lookup field with
  | some (.int n) => some n
  | _ => none

/-- Whether a flag is set. -/
def isSet (a : Arguments) (field : String) : Bool := (a.lookup field).any Value.isTruthy

/-- The fields that are not among the given ones. -/
def except (a : Arguments) (excluded : List String) : Arguments :=
  a.filter fun f => !excluded.contains f.1

end Arguments

namespace Grammar

/-- The refusal of a bare token. -/
def unexpected (g : Grammar) (token : String) : Fault :=
  .invalid "Unexpected Argument"
    ("Unexpected argument '" ++ token ++ "'. Use `/help` to see the usage of `/" ++
      g.command ++ "`.")

/-- The value of an option, or the refusal with the option's name and the text. -/
def convert (o : CommandOption) (c : Converter) (raw : String) (fps : Number) :
    Except Fault Value :=
  match c raw fps with
  | .ok v => .ok v
  | .error f =>
    match f.badValue? with
    | some reason =>
      .error (.invalid ("Invalid " ++ o.label) (o.label ++ " " ++ reason ++ ". Got '" ++ raw ++ "'"))
    | none => .error f

/-- The fields given by the tokens, added to those given before them. -/
def scan (g : Grammar) (fps : Number) (given : Arguments) : List String → Except Fault Arguments
  | [] => .ok given
  | token :: rest =>
    match g.option? token with
    | none =>
      if token.toList.head? = some '-' then .error (.problem (.unknownOption token g.command))
      else if !g.positional.isEmpty && (given.lookup g.positional).isNone then
        g.scan fps (Value.put g.positional (.text token) given) rest
      else .error (g.unexpected token)
    | some o =>
      match o.kind, rest with
      | .flag, rest => g.scan fps (Value.put o.name (.bool true) given) rest
      | .value _, [] => .error (.problem (.missingValue o.long o.hint))
      | .value c, raw :: rest =>
        match convert o c raw fps with
        | .error f => .error f
        | .ok v => g.scan fps (Value.put o.name v given) rest

/-- The given fields in the order of the grammar; one that the grammar does not have is a fault. -/
def inOrder (g : Grammar) (given : Arguments) : Except Fault Arguments :=
  if given.all fun f => g.fields.contains f.1 then
    .ok (g.fields.filterMap fun f => (given.lookup f).map fun v => (f, v))
  else .error (.wrongType "unexpected field")

/-- The arguments of a line. -/
def parse (g : Grammar) (tokens : List String) (fps : Number) : Except Fault Arguments := do
  g.inOrder (← g.scan fps [] tokens)

end Grammar

end Montage
