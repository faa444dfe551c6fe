/-
# Quoted values are told apart

Two values are quoted alike only if they are the same (`Value.quoted_injective`).  The reason is
that a quoted value shows where it ends: whatever follows, as long as it stops there, two texts that
go on alike start with the same value (`Value.readable`).

    None, True, False     words
    12  -0.5  1e+22       read back by the reader of numbers
    nan  inf  -inf        words that no numeral starts like
    'it'  "it's"  b'\x00' each character is told from any other, and the quote from all of them
    [1, 'a']  {'k': 2}    parts that stop before a comma or the closing bracket

The first character tells the kind of value (`Value.kindOf_quoted`), so only values of one kind have
to be compared.
-/
import Montage.Value.Text
import Montage.Proofs.Codec
import Montage.Proofs.Numeral

namespace Montage

/-! ## Between quotes -/

namespace Text

variable {q c d : Char} {cs ds r s : List Char}

theorem hexDigit_injective {m n : Nat} (hm : m < 16) (hn : n < 16)
    (h : hexDigit m = hexDigit n) : m = n := by
  interval_cases m <;> interval_cases n <;> first | rfl | exact absurd h (by decide)

theorem hex_length (w n : Nat) : (hex w n).length = w := by
  induction w generalizing n with
  | zero => rfl
  | succ w ih => rw [hex, List.length_append, ih, List.length_singleton]

theorem hex_injective {w m n : Nat} (hm : m < 16 ^ w) (hn : n < 16 ^ w)
    (h : hex w m = hex w n) : m = n := by
  induction w generalizing m n with
  | zero => omega
  | succ w ih =>
      rw [Nat.pow_succ] at hm hn
      obtain ⟨hinit, hlast⟩ := List.append_inj' h rfl
      have hquotient : m / 16 = n / 16 := ih (by omega) (by omega) hinit
      have hrest : m % 16 = n % 16 :=
        hexDigit_injective (by omega) (by omega) (List.singleton_inj.mp hlast)
      omega

/-- The character that a letter behind a backslash stands for. -/
def meaning (d : Char) : Char :=
  if d = 't' then '\t' else if d = 'n' then '\n' else if d = 'r' then '\r' else d

/-- The letters that announce the digits of a code point, and how many. -/
def announcers : List (Char × Nat) := [('x', 2), ('u', 4), ('U', 8)]

theorem announcers_width {w v : Nat} (hw : (d, w) ∈ announcers) (hv : (d, v) ∈ announcers) :
    w = v :=
  have hnodup : (announcers.map Prod.fst).Nodup := by decide
  congrArg Prod.snd (List.inj_on_of_nodup_map hnodup hw hv rfl)

/-- How a character is shown between quotes `q`. -/
inductive Shows (q c : Char) : List Char → Prop
  | itself : c ≠ q → c ≠ '\\' → Shows q c [c]
  | letter {d : Char} : d ∉ announcers.map Prod.fst → meaning d = c → Shows q c ['\\', d]
  | number {d : Char} {w : Nat} : (d, w) ∈ announcers → c.toNat < 16 ^ w →
      Shows q c ('\\' :: d :: hex w c.toNat)

theorem shows_quoteChar (hq : q = '\'' ∨ q = '"') (c : Char) : Shows q c (quoteChar q c) := by
  have hsmall : c.toNat < 16 ^ 8 := by
    have hvalid := c.valid
    unfold UInt32.isValidChar Nat.isValidChar at hvalid
    unfold Char.toNat
    omega
  unfold quoteChar
  split_ifs with hself htab hfeed hreturn hvisible hbyte hunit
  all_goals try rw [beq_iff_eq] at *
  · rw [Bool.or_eq_true, beq_iff_eq, beq_iff_eq] at hself
    rcases hself with rfl | rfl
    · rcases hq with rfl | rfl
      · exact .letter (by decide) (by decide)
      · exact .letter (by decide) (by decide)
    · exact .letter (by decide) (by decide)
  · exact .letter (by decide) (htab ▸ by decide)
  · exact .letter (by decide) (hfeed ▸ by decide)
  · exact .letter (by decide) (hreturn ▸ by decide)
  · simp only [Bool.or_eq_true, beq_iff_eq, not_or] at hself
    exact .itself hself.1 hself.2
  · exact .number (by decide) hbyte
  · exact .number (by decide) hunit
  · exact .number (by decide) hsmall

theorem toNat_ofByte (b : UInt8) : (Char.ofNat b.toNat).toNat = b.toNat := by
  have hlt := b.toNat_lt
  have hvalid : b.toNat.isValidChar := .inl (by omega)
  rw [Char.ofNat, dif_pos hvalid]
  rfl

theorem shows_quoteByte (hq : q = '\'' ∨ q = '"') (b : UInt8) :
    Shows q (Char.ofNat b.toNat) (quoteByte q b) := by
  unfold quoteByte
  split
  · exact shows_quoteChar hq _
  · have hshows : Shows q (Char.ofNat b.toNat) ('\\' :: 'x' :: hex 2 (Char.ofNat b.toNat).toNat) :=
      .number (by decide) (by rw [toNat_ofByte]; exact b.toNat_lt)
    rw [toNat_ofByte] at hshows
    exact hshows

/-- A character that is shown is told from any other one, and from what follows. -/
theorem Shows.unique (hc : Shows q c cs) (hd : Shows q d ds) (h : cs ++ r = ds ++ s) :
    c = d ∧ r = s := by
  -- a backslash parts the escapes from the rest, and the letter behind it tells which escape it is
  cases hc with
  | itself _ hslash =>
      cases hd with
      | itself => exact List.cons.inj h
      | _ => exact absurd (List.cons.inj h).1 hslash
  | @letter e he hc =>
      cases hd with
      | itself _ hslash => exact absurd (List.cons.inj h).1.symm hslash
      | @letter f _ hd =>
          obtain ⟨heq, hrest⟩ : e = f ∧ r = s := by simpa using h
          exact ⟨hc.symm.trans (heq ▸ hd), hrest⟩
      | @number f w hf _ =>
          obtain ⟨heq, -⟩ : e = f ∧ r = hex w d.toNat ++ s := by simpa using h
          exact absurd (heq ▸ List.mem_map_of_mem hf) he
  | @number e v he hc =>
      cases hd with
      | itself _ hslash => exact absurd (List.cons.inj h).1.symm hslash
      | @letter f hf _ =>
          obtain ⟨heq, -⟩ : e = f ∧ hex v c.toNat ++ r = s := by simpa using h
          exact absurd (heq ▸ List.mem_map_of_mem he) hf
      | @number f w hf hd =>
          obtain ⟨heq, hrest⟩ : e = f ∧ hex v c.toNat ++ r = hex w d.toNat ++ s := by
            simpa using h
          obtain rfl : v = w := announcers_width he (heq ▸ hf)
          obtain ⟨hhex, hrest⟩ := List.append_inj hrest (by rw [hex_length, hex_length])
          exact ⟨Char.toNat_inj.mp (hex_injective hc hd hhex), hrest⟩

/-- No character is shown like the closing quote. -/
theorem Shows.ne_quote (hc : Shows q c cs) (hq : q ≠ '\\') : cs ++ r ≠ q :: s := by
  intro h
  cases hc with
  | itself hne _ => exact hne (List.cons.inj h).1
  | _ => exact hq (List.cons.inj h).1.symm

/-- What is shown up to the closing quote is told from anything else. -/
theorem flatMap_unique {α : Type} {f : α → List Char} {g : α → Char} (hg : g.Injective)
    (hf : ∀ a, Shows q (g a) (f a)) (hq : q ≠ '\\') {as bs : List α}
    (h : as.flatMap f ++ q :: r = bs.flatMap f ++ q :: s) : as = bs ∧ r = s := by
  induction as generalizing bs with
  | nil =>
      cases bs with
      | nil => exact ⟨rfl, (List.cons.inj h).2⟩
      | cons b bs =>
          rw [List.flatMap_cons, List.append_assoc] at h
          exact absurd h.symm ((hf b).ne_quote hq)
  | cons a as ih =>
      rw [List.flatMap_cons, List.append_assoc] at h
      cases bs with
      | nil => exact absurd h ((hf a).ne_quote hq)
      | cons b bs =>
          rw [List.flatMap_cons, List.append_assoc] at h
          obtain ⟨hab, h⟩ := (hf a).unique (hf b) h
          obtain ⟨rfl, rfl⟩ := ih h
          exact ⟨congrArg (· :: as) (hg hab), rfl⟩

theorem quoteFor_cases (cs : List Char) : quoteFor cs = '\'' ∨ quoteFor cs = '"' := by
  unfold quoteFor
  split
  · exact .inr rfl
  · exact .inl rfl

theorem quote_ne_backslash (hq : q = '\'' ∨ q = '"') : q ≠ '\\' := by
  rcases hq with rfl | rfl <;> decide

theorem toList_quoted (t : String) (r : List Char) :
    (quoted t).toList ++ r = quoteFor t.toList ::
      (t.toList.flatMap (quoteChar (quoteFor t.toList)) ++ quoteFor t.toList :: r) := by
  simp [quoted]

/-- A quoted text shows where it ends. -/
theorem quoted_unique {a b : String}
    (h : (quoted a).toList ++ r = (quoted b).toList ++ s) : a = b ∧ r = s := by
  rw [toList_quoted, toList_quoted] at h
  obtain ⟨hquote, h⟩ := List.cons.inj h
  rw [← hquote] at h
  have hq := quoteFor_cases a.toList
  obtain ⟨hab, rfl⟩ := flatMap_unique Function.injective_id (shows_quoteChar hq)
    (quote_ne_backslash hq) h
  exact ⟨String.toList_inj.mp hab, rfl⟩

/-- The quote that bytes are shown between. -/
def byteQuote (bs : List UInt8) : Char := quoteFor (bs.map fun b => Char.ofNat b.toNat)

theorem toList_quotedBytes (bs : List UInt8) (r : List Char) :
    (quotedBytes bs).toList ++ r =
      'b' :: byteQuote bs :: (bs.flatMap (quoteByte (byteQuote bs)) ++ byteQuote bs :: r) := by
  simp [quotedBytes, byteQuote]

/-- Quoted bytes show where they end. -/
theorem quotedBytes_unique {as bs : List UInt8}
    (h : (quotedBytes as).toList ++ r = (quotedBytes bs).toList ++ s) : as = bs ∧ r = s := by
  rw [toList_quotedBytes, toList_quotedBytes] at h
  obtain ⟨hquote, h⟩ := List.cons.inj (List.cons.inj h).2
  rw [← hquote] at h
  have hq : byteQuote as = '\'' ∨ byteQuote as = '"' := quoteFor_cases _
  refine flatMap_unique ?_ (shows_quoteByte hq) (quote_ne_backslash hq) h
  intro a b hab
  have hnat := congrArg Char.toNat hab
  dsimp only at hnat
  rw [toNat_ofByte, toNat_ofByte] at hnat
  exact UInt8.toNat_inj.mp hnat

end Text

/-! ## Numbers -/

namespace Number

open Json (Ends Numeral isNumeric scalar? signChars)

variable {a b : Number} {r s : List Char}

/-- An integer or a finite float. -/
def isFinite : Number → Bool
  | int _ => true
  | float x => x.isFinite

/-- The text of a finite number is read back. -/
theorem scalar?_text (ha : a.isFinite = true) (hr : Ends r) :
    scalar? (a.text.toList ++ r) = some (Value.ofNumber a, r) := by
  cases a with
  | int n => exact Json.scalar?_int n hr
  | float x =>
      cases x with
      | finite n m p hc => exact Json.scalar?_float (.finite n m p hc) hr
      | _ => cases ha

/-- A finite number is written as a sign and a numeral. -/
theorem exists_numeral (ha : a.isFinite = true) :
    ∃ (negative : Bool) (x : Numeral), x.Written ∧
      a.text.toList = signChars negative ++ x.chars := by
  cases a with
  | int n =>
      refine ⟨n < 0, _, Json.written_toDigits n.natAbs, ?_⟩
      rw [Numeral.chars]
      exact (Json.toList_toString_int n).trans (congrArg _ (List.append_nil _).symm)
  | float x =>
      cases x with
      | finite n m p hc =>
          obtain ⟨x, hx, hchars, -⟩ := Json.exists_numeral n m p hc
          exact ⟨n, x, hx, hchars⟩
      | _ => cases ha

theorem isNumeric_text (ha : a.isFinite = true) :
    a.text.toList ≠ [] ∧ ∀ c ∈ a.text.toList, isNumeric c = true := by
  obtain ⟨negative, x, hx, htext⟩ := exists_numeral ha
  obtain ⟨hne, hchars⟩ := hx.isNumeric
  rw [htext]
  exact ⟨List.append_ne_nil_of_right_ne_nil _ hne,
    List.forall_mem_append.mpr ⟨Json.isNumeric_signChars negative, hchars⟩⟩

/-- The words for the other numbers. -/
theorem infinite_cases (ha : a.isFinite = false) :
    (a = .float .nan ∧ a.text.toList = ['n', 'a', 'n']) ∨
      (a = .float (.infinite false) ∧ a.text.toList = ['i', 'n', 'f']) ∨
      (a = .float (.infinite true) ∧ a.text.toList = ['-', 'i', 'n', 'f']) := by
  cases a with
  | int n => cases ha
  | float x =>
      cases x with
      | nan => exact .inl ⟨rfl, rfl⟩
      | infinite n =>
          cases n with
          | false => exact .inr (.inl ⟨rfl, rfl⟩)
          | true => exact .inr (.inr ⟨rfl, rfl⟩)
      | finite => cases ha

theorem scalar?_infinite (ha : a.isFinite = false) : scalar? (a.text.toList ++ r) = none := by
  obtain ⟨-, htext⟩ | ⟨-, htext⟩ | ⟨-, htext⟩ := infinite_cases ha <;> rw [htext] <;> rfl

/-- The text of a number shows where it ends. -/
theorem text_unique (hr : Ends r) (hs : Ends s)
    (h : a.text.toList ++ r = b.text.toList ++ s) : a = b ∧ r = s := by
  have hread := congrArg scalar? h
  cases ha : a.isFinite with
  | true =>
      rw [scalar?_text ha hr] at hread
      cases hb : b.isFinite with
      | true =>
          rw [scalar?_text hb hs] at hread
          obtain ⟨hvalue, rfl⟩ := Prod.mk.inj (Option.some.inj hread)
          refine ⟨?_, rfl⟩
          cases a <;> cases b <;> cases hvalue <;> rfl
      | false =>
          rw [scalar?_infinite hb] at hread
          cases hread
  | false =>
      rw [scalar?_infinite ha] at hread
      cases hb : b.isFinite with
      | true =>
          rw [scalar?_text hb hs] at hread
          cases hread
      | false =>
          obtain ⟨ha, hatext⟩ | ⟨ha, hatext⟩ | ⟨ha, hatext⟩ := infinite_cases ha <;>
          obtain ⟨hb, hbtext⟩ | ⟨hb, hbtext⟩ | ⟨hb, hbtext⟩ := infinite_cases hb <;>
          rw [hatext, hbtext] at h <;> simp_all

end Number

/-! ## Lists of items -/

/-- The characters stop before a comma or a closing bracket. -/
def Stops (cs : List Char) : Prop := ∀ c ∈ cs.head?, c = ',' ∨ c = ']' ∨ c = '\x7d'

theorem Stops.ends {cs : List Char} (h : Stops cs) : Json.Ends cs := by
  intro c hc
  rcases h c hc with rfl | rfl | rfl <;> decide

section Items
variable {α : Type} {f : α → List Char} {a : α} {as bs : List α} {r s : List Char} {close : Char}

/-- No other item looks like `a`, and what follows shows where it ends. -/
def Readable (f : α → List Char) (a : α) : Prop :=
  ∀ (b : α) (r s : List Char), Stops r → Stops s → f a ++ r = f b ++ s → a = b ∧ r = s

/-- Items separated by commas. -/
def separated (f : α → List Char) : List α → List Char
  | [] => []
  | a :: as => f a ++ as.flatMap fun b => ',' :: ' ' :: f b

theorem stops_behind (hclose : close = ']' ∨ close = '\x7d') (as : List α) (r : List Char) :
    Stops ((as.flatMap fun b => ',' :: ' ' :: f b) ++ close :: r) := by
  intro c hc
  cases as with
  | nil =>
      obtain rfl := Option.some.inj hc
      exact .inr hclose
  | cons b as =>
      obtain rfl := Option.some.inj hc
      exact .inl rfl

/-- What is behind the first item shows where the list ends. -/
theorem behind_unique (hclose : close = ']' ∨ close = '\x7d') (has : ∀ a ∈ as, Readable f a)
    (h : (as.flatMap fun b => ',' :: ' ' :: f b) ++ close :: r =
      (bs.flatMap fun b => ',' :: ' ' :: f b) ++ close :: s) : as = bs ∧ r = s := by
  have hcomma : close ≠ ',' := by
    rcases hclose with rfl | rfl <;> decide
  induction as generalizing bs with
  | nil =>
      cases bs with
      | nil => exact ⟨rfl, (List.cons.inj h).2⟩
      | cons b bs => exact absurd (List.cons.inj h).1 hcomma
  | cons a as ih =>
      obtain ⟨ha, has⟩ := List.forall_mem_cons.mp has
      cases bs with
      | nil => exact absurd (List.cons.inj h).1.symm hcomma
      | cons b bs =>
          simp only [List.flatMap_cons, List.append_assoc, List.cons_append, List.cons.injEq,
            true_and] at h
          obtain ⟨rfl, hrest⟩ := ha b _ _ (stops_behind hclose as r) (stops_behind hclose bs s) h
          obtain ⟨rfl, rfl⟩ := ih has hrest
          exact ⟨rfl, rfl⟩

/-- A list of items in brackets shows where it ends. -/
theorem separated_unique (hclose : close = ']' ∨ close = '\x7d') (has : ∀ a ∈ as, Readable f a)
    (hstart : ∀ (a : α) (r s : List Char), f a ++ r ≠ close :: s)
    (h : separated f as ++ close :: r = separated f bs ++ close :: s) : as = bs ∧ r = s := by
  cases as with
  | nil =>
      cases bs with
      | nil => exact ⟨rfl, (List.cons.inj h).2⟩
      | cons b bs =>
          rw [separated, separated, List.append_assoc] at h
          exact absurd h.symm (hstart b _ r)
  | cons a as =>
      obtain ⟨ha, has⟩ := List.forall_mem_cons.mp has
      rw [separated, List.append_assoc] at h
      cases bs with
      | nil => exact absurd h (hstart a _ s)
      | cons b bs =>
          rw [separated, List.append_assoc] at h
          obtain ⟨rfl, hrest⟩ := ha b _ _ (stops_behind hclose as r) (stops_behind hclose bs s) h
          obtain ⟨rfl, rfl⟩ := behind_unique hclose has hrest
          exact ⟨rfl, rfl⟩

end Items

/-! ## Values -/

namespace Value

open Json (isNumeric)

variable {u v : Value} {r s : List Char}

/-- What a quoted value is, as far as its first character tells. -/
inductive Kind where
  | null
  | truth
  | number
  | text
  | bytes
  | list
  | object
deriving DecidableEq

/-- The kind of a value. -/
def kind : Value → Kind
  | null => .null
  | bool _ => .truth
  | int _ | float _ => .number
  | text _ => .text
  | bytes _ => .bytes
  | list _ => .list
  | object _ => .object

/-- The kind that a character announces. -/
def kindOf (c : Char) : Option Kind :=
  if c = 'N' then some .null
  else if c = 'T' ∨ c = 'F' then some .truth
  else if c = '\'' ∨ c = '"' then some .text
  else if c = 'b' then some .bytes
  else if c = '[' then some .list
  else if c = '\x7b' then some .object
  else if isNumeric c ∨ c = 'n' ∨ c = 'i' then some .number
  else none

/-- The characters of a quoted value. -/
def quotedChars (v : Value) : List Char := v.quoted.toList

/-- The characters of a quoted entry. -/
def entryChars (f : String × Value) : List Char :=
  (Text.quoted f.1).toList ++ ':' :: ' ' :: quotedChars f.2

theorem toList_quotedItems (vs : List Value) :
    (quotedItems vs).toList = separated quotedChars vs := by
  induction vs with
  | nil => rfl
  | cons v vs ih =>
      cases vs with
      | nil => simp [quotedItems, separated, quotedChars]
      | cons w ws =>
          rw [quotedItems, String.toList_append, String.toList_append, ih]
          · simp [separated, quotedChars]
          · exact nofun

theorem toList_quotedFields (fs : List (String × Value)) :
    (quotedFields fs).toList = separated entryChars fs := by
  induction fs with
  | nil => rfl
  | cons f fs ih =>
      cases fs with
      | nil => simp [quotedFields, separated, entryChars, quotedChars]
      | cons g gs =>
          rw [quotedFields]
          · simp only [String.toList_append, ih]
            simp [separated, entryChars, quotedChars]
          · exact nofun

theorem quotedChars_list (vs : List Value) (r : List Char) :
    quotedChars (.list vs) ++ r = '[' :: (separated quotedChars vs ++ ']' :: r) := by
  simp [quotedChars, quoted, toList_quotedItems]

theorem quotedChars_object (fs : List (String × Value)) (r : List Char) :
    quotedChars (.object fs) ++ r = '\x7b' :: (separated entryChars fs ++ '\x7d' :: r) := by
  simp [quotedChars, quoted, toList_quotedFields]

theorem quotedChars_number (a : Number) : quotedChars (ofNumber a) = a.text.toList := by
  cases a <;> rfl

/-! ### The first character -/

theorem kindOf_numeric {c : Char} (hc : isNumeric c = true) : kindOf c = some .number := by
  have hne (d : Char) (hd : isNumeric d = false) : c ≠ d := by
    rintro rfl
    rw [hc] at hd
    cases hd
  unfold kindOf
  rw [if_neg (hne 'N' (by decide)), if_neg (not_or.mpr ⟨hne 'T' (by decide), hne 'F' (by decide)⟩),
    if_neg (not_or.mpr ⟨hne _ (by decide), hne _ (by decide)⟩), if_neg (hne 'b' (by decide)),
    if_neg (hne '[' (by decide)), if_neg (hne _ (by decide)), if_pos (.inl hc)]

theorem kindOf_number (a : Number) (r : List Char) :
    ∃ c t, a.text.toList ++ r = c :: t ∧ kindOf c = some .number := by
  cases ha : a.isFinite with
  | true =>
      obtain ⟨hne, hnumeric⟩ := Number.isNumeric_text ha
      obtain ⟨c, t, htext⟩ := List.exists_cons_of_ne_nil hne
      refine ⟨c, t ++ r, by rw [htext]; rfl, kindOf_numeric (hnumeric c ?_)⟩
      exact htext ▸ List.mem_cons_self
  | false =>
      obtain ⟨-, htext⟩ | ⟨-, htext⟩ | ⟨-, htext⟩ := Number.infinite_cases ha <;>
        exact ⟨_, _, by rw [htext]; rfl, by decide⟩

/-- The first character of a quoted value tells its kind. -/
theorem kindOf_quoted (v : Value) (r : List Char) :
    ∃ c t, quotedChars v ++ r = c :: t ∧ kindOf c = some v.kind := by
  cases v with
  | null => exact ⟨'N', _, rfl, by decide⟩
  | bool b =>
      cases b with
      | true => exact ⟨'T', _, rfl, by decide⟩
      | false => exact ⟨'F', _, rfl, by decide⟩
  | int n => exact kindOf_number (.int n) r
  | float x => exact kindOf_number (.float x) r
  | text t =>
      refine ⟨_, _, Text.toList_quoted t r, ?_⟩
      rcases Text.quoteFor_cases t.toList with hq | hq <;> rw [hq] <;> rfl
  | bytes bs => exact ⟨_, _, Text.toList_quotedBytes bs r, rfl⟩
  | list items => exact ⟨_, _, quotedChars_list items r, rfl⟩
  | object fields => exact ⟨_, _, quotedChars_object fields r, rfl⟩

/-- Values that are quoted alike at the front are of one kind. -/
theorem kind_eq (h : quotedChars u ++ r = quotedChars v ++ s) : u.kind = v.kind := by
  obtain ⟨c, t, hu, hc⟩ := kindOf_quoted u r
  obtain ⟨d, t', hv, hd⟩ := kindOf_quoted v s
  obtain ⟨rfl, -⟩ := List.cons.inj (hu.symm.trans (h.trans hv))
  exact Option.some.inj (hc.symm.trans hd)

/-! ### The whole -/

theorem readable_number (a : Number) : Readable quotedChars (ofNumber a) := by
  intro v r s hr hs h
  have hv : ∃ b, v = ofNumber b := by
    have hkind := kind_eq h
    cases v with
    | int n => exact ⟨.int n, rfl⟩
    | float x => exact ⟨.float x, rfl⟩
    | _ => cases a <;> cases hkind
  obtain ⟨b, rfl⟩ := hv
  rw [quotedChars_number, quotedChars_number] at h
  obtain ⟨rfl, rfl⟩ := Number.text_unique hr.ends hs.ends h
  exact ⟨rfl, rfl⟩

theorem readable_list {items : List Value} (ih : ∀ v ∈ items, Readable quotedChars v) :
    Readable quotedChars (.list items) := by
  intro v r s _ _ h
  have hkind := kind_eq h
  cases v with
  | list items' =>
      rw [quotedChars_list, quotedChars_list] at h
      have hstart (v : Value) (r s : List Char) : quotedChars v ++ r ≠ ']' :: s := by
        intro heq
        obtain ⟨c, t, hc, hkind⟩ := kindOf_quoted v r
        obtain ⟨rfl, -⟩ := List.cons.inj (hc.symm.trans heq)
        cases hkind
      obtain ⟨rfl, rfl⟩ := separated_unique (.inl rfl) ih hstart (List.cons.inj h).2
      exact ⟨rfl, rfl⟩
  | _ => cases hkind

theorem readable_entry {f : String × Value} (ih : Readable quotedChars f.2) :
    Readable entryChars f := by
  intro g r s hr hs h
  unfold entryChars at h
  rw [List.append_assoc, List.append_assoc] at h
  obtain ⟨hkey, h⟩ := Text.quoted_unique h
  obtain ⟨hvalue, hrest⟩ := ih g.2 r s hr hs (List.cons.inj (List.cons.inj h).2).2
  exact ⟨Prod.ext hkey hvalue, hrest⟩

theorem readable_object {fields : List (String × Value)}
    (ih : ∀ f ∈ fields, Readable quotedChars f.2) : Readable quotedChars (.object fields) := by
  intro v r s _ _ h
  have hkind := kind_eq h
  cases v with
  | object fields' =>
      rw [quotedChars_object, quotedChars_object] at h
      have hstart (f : String × Value) (r s : List Char) : entryChars f ++ r ≠ '\x7d' :: s := by
        intro heq
        rw [entryChars, List.append_assoc, Text.toList_quoted] at heq
        have hquote := (List.cons.inj heq).1
        rcases Text.quoteFor_cases f.1.toList with hq | hq <;>
          exact absurd (hq.symm.trans hquote) (by decide)
      obtain ⟨rfl, rfl⟩ := separated_unique (.inr rfl) (fun f hf => readable_entry (ih f hf)) hstart
        (List.cons.inj h).2
      exact ⟨rfl, rfl⟩
  | _ => cases hkind

/-- A quoted value shows where it ends. -/
theorem readable (v : Value) : Readable quotedChars v := by
  -- the first characters agree, so the other value is of the same kind
  induction v using Value.induction with
  | null =>
      intro v r s _ _ h
      have hkind := kind_eq h
      cases v with
      | null => exact ⟨rfl, List.append_cancel_left h⟩
      | _ => cases hkind
  | bool b =>
      intro v r s _ _ h
      have hkind := kind_eq h
      cases v with
      | bool b' =>
          obtain rfl : b = b' := by
            cases b <;> cases b' <;> first | rfl | exact absurd (List.cons.inj h).1 (by decide)
          exact ⟨rfl, List.append_cancel_left h⟩
      | _ => cases hkind
  | int n => exact readable_number (.int n)
  | float x => exact readable_number (.float x)
  | text t =>
      intro v r s _ _ h
      have hkind := kind_eq h
      cases v with
      | text t' =>
          obtain ⟨rfl, rfl⟩ := Text.quoted_unique h
          exact ⟨rfl, rfl⟩
      | _ => cases hkind
  | bytes bs =>
      intro v r s _ _ h
      have hkind := kind_eq h
      cases v with
      | bytes bs' =>
          obtain ⟨rfl, rfl⟩ := Text.quotedBytes_unique h
          exact ⟨rfl, rfl⟩
      | _ => cases hkind
  | list items ih => exact readable_list ih
  | object fields ih => exact readable_object ih

/-- Only the same value is quoted alike. -/
theorem quoted_injective : Function.Injective quoted := by
  intro u v h
  have hchars : quotedChars u = quotedChars v := congrArg String.toList h
  exact (readable u v [] [] nofun nofun (congrArg (· ++ []) hchars)).1

end Value

end Montage
