/-
One text inside another.
-/
namespace Montage.Text

/-- Whether `needle` stands in the characters, all of it in one place. -/
def occursIn (needle : List Char) : List Char → Bool
  | [] => needle.isEmpty
  | c :: r => needle.isPrefixOf (c :: r) || occursIn needle r

/-- Whether the characters of `needle` stand in the other list in the same order, not
necessarily next to each other. -/
def scattered : (needle : List Char) → List Char → Bool
  | [], _ => true
  | _ :: _, [] => false
  | a :: n, c :: r => if a == c then scattered n r else scattered (a :: n) r

/-- Whether a text holds another one. -/
def contains (s needle : String) : Bool := occursIn needle.toList s.toList

/-- The characters with each place where `old` stands replaced by `new`, from the left. -/
def replaceChars (old new : List Char) : (fuel : Nat) → List Char → List Char
  | 0, cs => cs
  | _ + 1, [] => []
  | n + 1, c :: r =>
    if old.isPrefixOf (c :: r) && !old.isEmpty then
      new ++ replaceChars old new n ((c :: r).drop old.length)
    else c :: replaceChars old new n r

/-- The text with each place where `old` stands replaced by `new`. -/
def replace (s old new : String) : String :=
  String.ofList (replaceChars old.toList new.toList s.length s.toList)

end Montage.Text
