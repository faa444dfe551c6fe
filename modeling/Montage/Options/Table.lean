/-
The options of a command.

An option has a long name, perhaps a short one, and either stands alone as a flag
or takes the next token as its value.  A grammar is a table of options, the field
that a bare token fills if the command takes one, and the fields of the parsed
arguments in their order.
-/
import Montage.Options.Converter
import Montage.Text.CaseMap

namespace Montage

/-- What an option takes. -/
inductive OptionKind where
  /-- Nothing: it is a switch. -/
  | flag
  /-- The next token. -/
  | value (convert : Converter)

/-- An option of a command. -/
structure CommandOption where
  /-- The field that it fills. -/
  name : String
  /-- The long form, with its dashes. -/
  long : String
  /-- The short form, empty if there is none. -/
  short : String := ""
  kind : OptionKind := .value Converter.text
  /-- A value to show when it is missing. -/
  hint : String := ""

namespace CommandOption

/-- The option's name as a title. -/
def label (o : CommandOption) : String :=
  Text.titleCase (o.name.map fun c => if c == '_' then ' ' else c)

/-- The tokens that name the option. -/
def aliases (o : CommandOption) : List String :=
  o.long :: if o.short.isEmpty then [] else [o.short]

/-- An option that takes a value. -/
def taking (name long short : String) (convert : Converter) (hint : String := "") :
    CommandOption :=
  { name, long, short, kind := .value convert, hint }

/-- A switch. -/
def flag (name long : String) (short : String := "") : CommandOption :=
  { name, long, short, kind := .flag }

end CommandOption

/-- What a command accepts after its name. -/
structure Grammar where
  /-- The name of the command. -/
  command : String
  options : List CommandOption := []
  /-- The field that the first bare token fills, empty if none is accepted. -/
  positional : String := ""
  /-- The fields of the parsed arguments, in order. -/
  fields : List String

namespace Grammar

/-- The option that a token names, the last one if several do. -/
def option? (g : Grammar) (token : String) : Option CommandOption :=
  g.options.reverse.find? fun o => o.aliases.contains token

end Grammar

end Montage
