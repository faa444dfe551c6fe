/-
White space.

`isBlank` is the class of characters that separate words on a command line
and are stripped from both ends of a text: the ASCII controls U+0009–U+000D
and U+001C–U+001F, the space, U+0085, U+00A0 and the Unicode space
separators.  `strip` takes them off both ends of a text and off nowhere else.
-/
namespace Montage.Text

/-- A character that separates words. -/
def isBlank (c : Char) : Bool :=
  let n := c.toNat
  (9 ≤ n && n ≤ 13) || (28 ≤ n && n ≤ 32) || n == 0x85 || n == 0xa0 || n == 0x1680 ||
    (0x2000 ≤ n && n ≤ 0x200a) || n == 0x2028 || n == 0x2029 || n == 0x202f ||
    n == 0x205f || n == 0x3000

/-- The characters without those at the end for which `p` holds. -/
def dropEndWhile (p : Char → Bool) (s : List Char) : List Char :=
  (s.reverse.dropWhile p).reverse

/-- The characters without the white space at both ends. -/
def stripChars (s : List Char) : List Char :=
  dropEndWhile isBlank (s.dropWhile isBlank)

/-- The text without the white space at both ends. -/
def strip (s : String) : String :=
  String.ofList (stripChars s.toList)

/-- The characters without tabulators and line breaks. -/
def joinLines (s : List Char) : List Char :=
  s.filter fun c => !(c == '\t' || c == '\n' || c == '\r')

/-- Everything that core counts as white space is blank. -/
theorem isBlank_of_isWhitespace {c : Char} (h : c.isWhitespace = true) : isBlank c = true := by
  simp only [Char.isWhitespace, Bool.or_eq_true, decide_eq_true_eq] at h
  rcases h with ((h | h) | h) | h <;> subst h <;> decide

section Strip
variable {s t : List Char}

theorem dropEndWhile_append {p : Char → Bool} (hs : ∀ c ∈ s.getLast?, p c = false)
    (ht : ∀ c ∈ t, p c = true) : dropEndWhile p (s ++ t) = s := by
  have hdrop : s.reverse.dropWhile p = s.reverse := by
    cases hr : s.reverse with
    | nil => rfl
    | cons c r =>
        have hlast : s.getLast? = some c := by rw [← List.head?_reverse, hr]; rfl
        exact List.dropWhile_cons_of_neg (by simp [hs c hlast])
  rw [dropEndWhile, List.reverse_append,
    List.dropWhile_append_of_pos fun c hc => ht c (List.mem_reverse.mp hc), hdrop,
    List.reverse_reverse]

/-- White space is stripped from around what neither begins nor ends with it. -/
theorem stripChars_between {gap : List Char} (hgap : ∀ c ∈ gap, isBlank c = true)
    (hfirst : ∀ c ∈ s.head?, isBlank c = false) (hlast : ∀ c ∈ s.getLast?, isBlank c = false)
    (ht : ∀ c ∈ t, isBlank c = true) : stripChars (gap ++ (s ++ t)) = s := by
  rw [stripChars, List.dropWhile_append_of_pos hgap]
  cases s with
  | nil =>
      rw [List.nil_append, ← List.append_nil t, List.dropWhile_append_of_pos ht]
      rfl
  | cons c r =>
      rw [List.cons_append, List.dropWhile_cons_of_neg (by simp [hfirst c rfl]),
        ← List.cons_append, dropEndWhile_append hlast ht]

end Strip

end Montage.Text
