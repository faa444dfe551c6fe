/-
Catalogs: commands found by their names.

A catalog finds a command by its name in lower case; adding a command takes the
place of one with the same name.  The names are listed in the order of their code
points.  A part of a name finds the commands for completion: those that begin
with it come first, then those that hold it, then those that hold its characters
in order; among each of these the shorter name comes first.
-/
import Montage.Command.Session
import Montage.Text.Infix

namespace Montage

/-- Commands by their names in lower case. -/
structure Catalog where
  entries : List (String × Command) := []

namespace Catalog

/-- The catalog with a command added. -/
def insert (c : Catalog) (command : Command) : Catalog :=
  ⟨go (Text.lower command.name) command c.entries⟩
where
  /-- The entries with a command under a name: in place if the name is there, else at the end. -/
  go (name : String) (command : Command) : List (String × Command) → List (String × Command)
    | [] => [(name, command)]
    | e :: r => if e.1 == name then (name, command) :: r else e :: go name command r

/-- The catalog of some commands. -/
def ofList (commands : List Command) : Catalog := commands.foldl insert {}

/-- The catalog without a command. -/
def erase (c : Catalog) (name : String) : Catalog :=
  ⟨c.entries.filter fun e => e.1 != Text.lower name⟩

/-- The command with a name. -/
def get? (c : Catalog) (name : String) : Option Command := c.entries.lookup (Text.lower name)

/-- Whether there is a command with a name. -/
def contains (c : Catalog) (name : String) : Bool := (c.get? name).isSome

/-- The number of commands. -/
def size (c : Catalog) : Nat := c.entries.length

/-- The commands with their names in lower case, in the order of the names. -/
def sorted (c : Catalog) : List (String × Command) :=
  c.entries.mergeSort fun a b => decide (a.1 ≤ b.1)

/-- The names, in order. -/
def names (c : Catalog) : List String := c.sorted.map (·.1)

/-- What is known of the commands, in the order of the names. -/
def infos (c : Catalog) : List (String × CommandInfo) :=
  c.sorted.map fun e => (e.1, e.2.toCommandInfo)

/-! ## Completion -/

/-- How well a name answers a query, the best with zero. -/
def rank? (query name : List Char) : Option Nat :=
  if query.isPrefixOf name then some 0
  else if Text.occursIn query name then some 1
  else if Text.scattered query name then some 2
  else none

/-- The query in what was typed: in lower case, without slashes before it. -/
def query (typed : String) : List Char :=
  (Text.lower (String.ofList (typed.toList.dropWhile (· == '/')))).toList

/-- The order of answers: by rank, then by the length of the name. -/
def ranksBefore (a b : (Nat × Nat) × Command) : Bool :=
  decide (a.1.1 < b.1.1) || (a.1.1 == b.1.1 && decide (a.1.2 ≤ b.1.2))

/-- The commands that answer a query, the best first. -/
def ranked (c : Catalog) (query : List Char) : List Command :=
  let found := c.sorted.filterMap fun e =>
    (rank? query e.1.toList).map fun r => ((r, e.1.length), e.2)
  (found.mergeSort ranksBefore).map (·.2)

/-- The first items up to a limit; a negative one counts from the end, and without one all. -/
def takeUpTo {α : Type} (limit : Option Int) (items : List α) : List α :=
  match limit with
  | none => items
  | some n => items.take (if n < 0 then n + items.length else n).toNat

/-- The best commands for what was typed, up to a limit; all commands if nothing was. -/
def complete (c : Catalog) (typed : String) (limit : Option Int := some 10) : List Command :=
  let q := query typed
  takeUpTo limit (if q.isEmpty then c.sorted.map (·.2) else c.ranked q)

/-! ## Help -/

/-- The entry of a command in a list. -/
def helpEntry (name : String) (info : CommandInfo) : String :=
  "• `/" ++ name ++ "` - " ++ info.description ++ "\n  `" ++ info.usage ++ "`"

/-- The list of commands. -/
def helpText (commands : List (String × CommandInfo)) : String :=
  "\n".intercalate (commands.map fun c => helpEntry c.1 c.2)

end Catalog

end Montage
