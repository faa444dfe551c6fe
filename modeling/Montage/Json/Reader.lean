/-
JSON text read as a value.

`read` accepts what JSON allows and the words `NaN`, `Infinity` and `-Infinity`.
A number with a fraction or an exponent is a float, any other an integer of any
size.  Of a repeated key the last value counts, at the place of the first.

A text that is refused gives a cause and the place where it shows: the number
of characters still unread there, from which `ReadError.message` computes line,
column and offset.
-/
import Montage.Value.Basic
import Montage.Text.Digit

namespace Montage.Json

/-- Why a text is no JSON. -/
inductive Cause where
  | byteOrderMark
  | expectingValue
  | expectingName
  | expectingColon
  | expectingComma
  | extraData
  | controlCharacter
  | unterminated
  | badEscape
  | badUnicodeEscape
deriving DecidableEq, Repr

/-- A cause in words. -/
def Cause.text : Cause → String
  | byteOrderMark => "Unexpected UTF-8 BOM (decode using utf-8-sig)"
  | expectingValue => "Expecting value"
  | expectingName => "Expecting property name enclosed in double quotes"
  | expectingColon => "Expecting ':' delimiter"
  | expectingComma => "Expecting ',' delimiter"
  | extraData => "Extra data"
  | controlCharacter => "Invalid control character at"
  | unterminated => "Unterminated string starting at"
  | badEscape => "Invalid \\escape"
  | badUnicodeEscape => "Invalid \\uXXXX escape"

/-- A refusal: the cause, and the number of characters from its place to the end. -/
structure ReadError where
  cause : Cause
  unread : Nat
deriving DecidableEq, Repr

/-- The refusal with line and column, counted from one, and the offset, counted from zero. -/
def ReadError.message (e : ReadError) (source : List Char) : String :=
  let offset := source.length - e.unread
  let seen := source.take offset
  let line := seen.count '\n' + 1
  let column := (seen.reverse.takeWhile (· != '\n')).length + 1
  e.cause.text ++ ": line " ++ toString line ++ " column " ++ toString column ++
    " (char " ++ toString offset ++ ")"

/-- A result, or a refusal. -/
abbrev Reading := Except ReadError

/-- The refusal at the first of the characters `unread`. -/
def refuse {α : Type} (cause : Cause) (unread : List Char) : Reading α :=
  .error ⟨cause, unread.length⟩

/-- White space between tokens. -/
def isSpace (c : Char) : Bool := c == ' ' || c == '\t' || c == '\n' || c == '\r'

/-- The characters from the next token on. -/
def skip (cs : List Char) : List Char := cs.dropWhile isSpace

/-! ## Strings -/

/-- The value of a digit in base sixteen. -/
def hexValue? (c : Char) : Option Nat :=
  let n := c.toNat
  if 48 ≤ n ∧ n ≤ 57 then some (n - 48)
  else if 97 ≤ n ∧ n ≤ 102 then some (n - 87)
  else if 65 ≤ n ∧ n ≤ 70 then some (n - 55)
  else none

/-- The number that four digits in base sixteen denote. -/
def hex4? (a b c d : Char) : Option Nat := do
  return 4096 * (← hexValue? a) + 256 * (← hexValue? b) + 16 * (← hexValue? c) +
    (← hexValue? d)

/-- The character that a letter after a backslash stands for. -/
def escape? (c : Char) : Option Char :=
  if c == '"' || c == '\\' || c == '/' then some c
  else if c == 'b' then some '\x08'
  else if c == 'f' then some '\x0c'
  else if c == 'n' then some '\n'
  else if c == 'r' then some '\r'
  else if c == 't' then some '\t'
  else none

/-- The first half of a surrogate pair. -/
def isHigh (n : Nat) : Bool := 0xd800 ≤ n && n ≤ 0xdbff

/-- The second half of a surrogate pair. -/
def isLow (n : Nat) : Bool := 0xdc00 ≤ n && n ≤ 0xdfff

/-- The character of a surrogate pair. -/
def pairChar (high low : Nat) : Char :=
  Char.ofNat (0x10000 + 1024 * (high - 0xd800) + (low - 0xdc00))

/-- A string being read: its characters, the last one first, and the first half of a
surrogate pair that stands after them. -/
structure Partial where
  chars : List Char := []
  high : Option Nat := none

namespace Partial

/-- Without a second half, the first one counts as the replacement character. -/
def settle (p : Partial) : Partial :=
  match p.high with
  | none => p
  | some _ => ⟨'\ufffd' :: p.chars, none⟩

/-- One more character. -/
def push (p : Partial) (c : Char) : Partial := ⟨c :: p.settle.chars, none⟩

/-- One more code unit. -/
def pushUnit (p : Partial) (n : Nat) : Partial :=
  match p.high with
  | some h =>
    if isLow n then ⟨pairChar h n :: p.chars, none⟩
    else if isHigh n then ⟨p.settle.chars, some n⟩
    else p.push (Char.ofNat n)
  | none =>
    if isLow n then p.push '\ufffd'
    else if isHigh n then ⟨p.chars, some n⟩
    else p.push (Char.ofNat n)

/-- The whole string. -/
def finish (p : Partial) : String := String.ofList p.settle.chars.reverse

end Partial

/-- The rest of a string whose opening quote has `start` characters from it to the end, after
the part `p` of it. -/
def stringBody (start : Nat) (p : Partial) : List Char → Reading (String × List Char)
  | [] => .error ⟨.unterminated, start⟩
  | '"' :: r => .ok (p.finish, r)
  | '\\' :: [] => .error ⟨.unterminated, start⟩
  | '\\' :: 'u' :: a :: b :: c :: d :: e :: r =>
    match hex4? a b c d with
    | none => .error ⟨.badUnicodeEscape, r.length + 6⟩
    | some n => stringBody start (p.pushUnit n) (e :: r)
  | '\\' :: 'u' :: r => refuse .badUnicodeEscape ('u' :: r)
  | '\\' :: c :: r =>
    match escape? c with
    | none => .error ⟨.badEscape, r.length + 2⟩
    | some x => stringBody start (p.push x) r
  | c :: r =>
    if c.toNat < 0x20 then refuse .controlCharacter (c :: r)
    else stringBody start (p.push c) r

/-! ## Numbers and words -/

/-- A digit of a number. -/
def isDigit (c : Char) : Bool := 48 ≤ c.toNat && c.toNat ≤ 57

/-- The digits before the point: a single zero, or digits that start with another one. -/
def wholeDigits? : List Char → Option (List Char × List Char)
  | [] => none
  | c :: r =>
    if c == '0' then some (['0'], r)
    else if isDigit c then some (c :: r.takeWhile isDigit, r.dropWhile isDigit)
    else none

/-- The digits after a point, none if there is no point or no digit after it. -/
def fractionDigits : List Char → List Char × List Char
  | '.' :: r =>
    if (r.head?.any isDigit) then (r.takeWhile isDigit, r.dropWhile isDigit)
    else ([], '.' :: r)
  | cs => ([], cs)

/-- The exponent, absent if no digit follows its mark. -/
def exponent? (cs : List Char) : Option (Int × List Char) :=
  match cs with
  | c :: r =>
    if c == 'e' || c == 'E' then
      let (negative, ds) := match r with
        | '-' :: t => (true, t)
        | '+' :: t => (false, t)
        | t => (false, t)
      if ds.head?.any isDigit then
        let n : Int := Text.natOfDigits (ds.takeWhile isDigit)
        some (if negative then -n else n, ds.dropWhile isDigit)
      else none
    else none
  | [] => none

/-- A number without its sign. -/
def unsigned? (negative : Bool) (cs : List Char) : Option (Value × List Char) := do
  let (whole, r) ← wholeDigits? cs
  let (fraction, r) := fractionDigits r
  match exponent? r, fraction with
  | none, [] =>
    let n : Int := Text.natOfDigits whole
    return (.int (if negative then -n else n), r)
  | none, ds =>
    return (.float (Binary64.ofDecimal negative (Text.natOfDigits (whole ++ ds)) (-ds.length)), r)
  | some (e, r), ds =>
    let x := Binary64.ofDecimal negative (Text.natOfDigits (whole ++ ds)) (e - ds.length)
    return (.float x, r)

/-- The characters after the word `w`, if they start with it. -/
def after? (w : String) (cs : List Char) : Option (List Char) :=
  if w.toList.isPrefixOf cs then some (cs.drop w.length) else none

/-- The words that stand for values. -/
def words : List (String × Value) :=
  [("null", .null), ("true", .bool true), ("false", .bool false), ("NaN", .float .nan),
   ("Infinity", .float (.infinite false)), ("-Infinity", .float (.infinite true))]

/-- A word or a number. -/
def scalar? (cs : List Char) : Option (Value × List Char) :=
  match words.findSome? fun w => (after? w.1 cs).map fun r => (w.2, r) with
  | some step => some step
  | none =>
    match cs with
    | '-' :: r => unsigned? true r
    | r => unsigned? false r

/-! ## Values -/

mutual

/-- The value that the characters start with.  Each call takes one of `fuel`; two for every
character and two more suffice. -/
def value (fuel : Nat) (cs : List Char) : Reading (Value × List Char) :=
  match fuel with
  | 0 => refuse .expectingValue cs
  | fuel + 1 =>
    match cs with
    | '"' :: r => do
      let (s, r) ← stringBody (r.length + 1) {} r
      return (.text s, r)
    | '\x7b' :: r =>
      match skip r with
      | '\x7d' :: t => .ok (.object [], t)
      | t => members fuel [] t
    | '[' :: r =>
      match skip r with
      | ']' :: t => .ok (.list [], t)
      | t => items fuel [] t
    | cs =>
      match scalar? cs with
      | some step => .ok step
      | none => refuse .expectingValue cs

/-- The entries of an object from the next one on; `acc` holds those before it. -/
def members (fuel : Nat) (acc : List (String × Value)) (cs : List Char) :
    Reading (Value × List Char) :=
  match fuel with
  | 0 => refuse .expectingName cs
  | fuel + 1 =>
    match cs with
    | '"' :: r => do
      let (key, r) ← stringBody (r.length + 1) {} r
      match skip r with
      | ':' :: r =>
        let (v, r) ← value fuel (skip r)
        let acc := Value.put key v acc
        match skip r with
        | '\x7d' :: t => return (.object acc, t)
        | ',' :: t => members fuel acc (skip t)
        | t => refuse .expectingComma t
      | t => refuse .expectingColon t
    | cs => refuse .expectingName cs

/-- The items of a list from the next one on; `acc` holds those before it, the last first. -/
def items (fuel : Nat) (acc : List Value) (cs : List Char) : Reading (Value × List Char) :=
  match fuel with
  | 0 => refuse .expectingValue cs
  | fuel + 1 => do
    let (v, r) ← value fuel cs
    let acc := v :: acc
    match skip r with
    | ']' :: t => return (.list acc.reverse, t)
    | ',' :: t => items fuel acc (skip t)
    | t => refuse .expectingComma t

end

/-- The value that all the characters denote. -/
def readChars (cs : List Char) : Reading Value := do
  if cs.head? = some '\ufeff' then refuse .byteOrderMark cs
  let (v, r) ← value (2 * cs.length + 2) (skip cs)
  match skip r with
  | [] => return v
  | t => refuse .extraData t

/-- The value that a text denotes, or the refusal in words. -/
def read (s : String) : Except String Value :=
  (readChars s.toList).mapError fun e => e.message s.toList

end Montage.Json
