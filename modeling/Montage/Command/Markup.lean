/-
The markup of answers.
-/
import Montage.Json.Printer

namespace Montage.Markup

/-- A line for each item, behind a bullet. -/
def bulletList (lines : List String) : String :=
  "\n".intercalate (lines.map ("• " ++ ·))

/-- A count and a word, in the plural unless the count is one. -/
def plural (count : Nat) (word : String) : String :=
  toString count ++ " " ++ (if count = 1 then word else word ++ "s")

/-- A value as a block of JSON. -/
def jsonBlock (v : Value) : Except Fault String := do
  return "```json\n" ++ (← Json.write v) ++ "\n```"

/-- A title in bold behind an icon, and the body under it. -/
def titled (icon title body : String) : String :=
  icon ++ " **" ++ title ++ "**\n\n" ++ body

end Montage.Markup
