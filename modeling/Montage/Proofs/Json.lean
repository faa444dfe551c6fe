/-
# Values written as JSON and read back

A value is `Plain` if it holds no bytes and every object in it has each of its keys
once.  A plain value that was written is read back as it is (`reads_plain`), and
whatever is read is plain (`plain_of_read`).

    characters    `escapeChar` is undone by one turn of `stringBody`
    strings       by induction on the characters still to come
    values        `Reads v`: read back whatever stands behind it, by induction on `v`
    lists         `items` is undone item by item, those before it in `acc`
    objects       `members` likewise; as the keys differ, `put` goes to the end

The reader is fuelled.  For a written value one unit for every character is enough,
as each call leaves a character behind: `Reads` carries this bound.
-/
import Montage.Proofs.Codec
import Montage.Proofs.Numeral

namespace Montage

namespace Json

variable {r rest : List Char} {c : Char}

/-! ## Strings -/

section Strings
variable {start : Nat} {p : Partial}

theorem stringBody_plain (hquote : c ≠ '"') (hslash : c ≠ '\\') (hvisible : ¬ c.toNat < 0x20) :
    stringBody start p (c :: r) = stringBody start (p.push c) r := by
  rw [stringBody.eq_def]
  split <;> simp_all

theorem stringBody_escape {d : Char} (hd : d ≠ 'u') (h : escape? d = some c) :
    stringBody start p ('\\' :: d :: r) = stringBody start (p.push c) r := by
  rw [stringBody.eq_def]
  split
  case h_7 hslash heq =>
    cases heq
    exact absurd rfl (hslash d r rfl)
  all_goals simp_all

theorem stringBody_unit {a b d e x : Char} {n : Nat} (h : hex4? a b d e = some n) :
    stringBody start p ('\\' :: 'u' :: a :: b :: d :: e :: x :: r) =
      stringBody start (p.pushUnit n) (x :: r) := by
  rw [stringBody.eq_def]
  simp [h]

/-- A character stands for itself, or as a letter or a number behind a backslash. -/
theorem escape_cases (c : Char) :
    (escapeChar c = [c] ∧ c ≠ '"' ∧ c ≠ '\\' ∧ ¬ c.toNat < 0x20) ∨
      (∃ d, escapeChar c = ['\\', d] ∧ d ≠ 'u' ∧ escape? d = some c) ∨
      (escapeChar c = ['\\', 'u'] ++ Text.hex 4 c.toNat ∧ c.toNat < 0x20) := by
  unfold escapeChar
  split_ifs with hquote hslash hfeed hreturn htab hform hback hcontrol
  all_goals try rw [beq_iff_eq] at *
  · subst hquote
    exact .inr (.inl ⟨'"', rfl, by decide, rfl⟩)
  · subst hslash
    exact .inr (.inl ⟨'\\', rfl, by decide, rfl⟩)
  · exact .inr (.inl ⟨'n', rfl, by decide, hfeed ▸ rfl⟩)
  · exact .inr (.inl ⟨'r', rfl, by decide, hreturn ▸ rfl⟩)
  · exact .inr (.inl ⟨'t', rfl, by decide, htab ▸ rfl⟩)
  · exact .inr (.inl ⟨'f', rfl, by decide, hform ▸ rfl⟩)
  · exact .inr (.inl ⟨'b', rfl, by decide, hback ▸ rfl⟩)
  · exact .inr (.inr ⟨rfl, hcontrol⟩)
  · exact .inl ⟨rfl, hquote, hslash, hcontrol⟩

theorem hex4?_hex {n : Nat} (hn : n < 0x20) :
    ∃ a b d e, Text.hex 4 n = [a, b, d, e] ∧ hex4? a b d e = some n := by
  refine ⟨_, _, _, _, rfl, ?_⟩
  revert n
  decide

/-- An escaped character is read back. -/
theorem stringBody_escapeChar (acc : List Char) {x : Char} :
    stringBody start ⟨acc, none⟩ (escapeChar c ++ x :: r) =
      stringBody start ⟨c :: acc, none⟩ (x :: r) := by
  rcases escape_cases c with ⟨hchars, hquote, hslash, hvisible⟩ | ⟨d, hchars, hd, hescape⟩ |
    ⟨hchars, hcontrol⟩
  · rw [hchars]
    exact stringBody_plain hquote hslash hvisible
  · rw [hchars]
    exact stringBody_escape hd hescape
  · obtain ⟨a, b, d, e, hhex, hread⟩ := hex4?_hex hcontrol
    -- A control character is neither half of a surrogate pair.
    have hlow : isLow c.toNat = false := by
      unfold isLow
      simp
      omega
    have hhigh : isHigh c.toNat = false := by
      unfold isHigh
      simp
      omega
    have hpush : Partial.pushUnit ⟨acc, none⟩ c.toNat = ⟨c :: acc, none⟩ := by
      simp [Partial.pushUnit, hlow, hhigh, Partial.push, Partial.settle]
    rw [hchars, hhex]
    exact (stringBody_unit hread).trans (hpush ▸ rfl)

/-- The escaped characters of a string are read back. -/
theorem stringBody_escaped (start : Nat) (acc cs : List Char) :
    stringBody start ⟨acc, none⟩ (cs.flatMap escapeChar ++ '"' :: rest) =
      .ok (String.ofList (acc.reverse ++ cs), rest) := by
  induction cs generalizing acc with
  | nil =>
      rw [List.append_nil]
      rfl
  | cons c cs ih =>
      have hnext : ∃ x t, cs.flatMap escapeChar ++ '"' :: rest = x :: t := by
        cases h : cs.flatMap escapeChar with
        | nil => exact ⟨_, _, rfl⟩
        | cons x t => exact ⟨x, _, rfl⟩
      obtain ⟨x, t, hx⟩ := hnext
      have hread := ih (c :: acc)
      rw [List.flatMap_cons, List.append_assoc, hx, stringBody_escapeChar, ← hx, hread,
        List.reverse_cons, List.append_assoc]
      rfl

end Strings

/-! ## Plain values -/

end Json

/-- No bytes at any depth, and every object has each of its keys once. -/
inductive Value.Plain : Value → Prop
  | null : Plain .null
  | bool (b : Bool) : Plain (.bool b)
  | int (n : Int) : Plain (.int n)
  | float (x : Binary64) : Plain (.float x)
  | text (s : String) : Plain (.text s)
  | list {items : List Value} : (∀ v ∈ items, Plain v) → Plain (.list items)
  | object {fields : List (String × Value)} :
      (fields.map Prod.fst).Nodup → (∀ f ∈ fields, Plain f.2) → Plain (.object fields)

namespace Value

variable {v : Value}

theorem Plain.keyed (h : v.Plain) : v.Keyed := by
  induction h with
  | null => exact .null
  | bool b => exact .bool b
  | int n => exact .int n
  | float x => exact .float x
  | text s => exact .text s
  | list _ ih => exact .list ih
  | object hnodup _ ih => exact .object hnodup ih

end Value

namespace Json

variable {r rest : List Char} {c : Char} {v : Value} {level fuel : Nat}

theorem anyHoldsBytes_eq_false {items : List Value} :
    anyHoldsBytes items = false ↔ ∀ v ∈ items, holdsBytes v = false := by
  induction items with
  | nil => exact ⟨fun _ => nofun, fun _ => rfl⟩
  | cons v r ih => rw [anyHoldsBytes, Bool.or_eq_false_iff, List.forall_mem_cons, ih]

theorem anyFieldHoldsBytes_eq_false {fields : List (String × Value)} :
    anyFieldHoldsBytes fields = false ↔ ∀ f ∈ fields, holdsBytes f.2 = false := by
  induction fields with
  | nil => exact ⟨fun _ => nofun, fun _ => rfl⟩
  | cons f r ih => rw [anyFieldHoldsBytes, Bool.or_eq_false_iff, List.forall_mem_cons, ih]

theorem holdsBytes_eq_false (h : v.Plain) : holdsBytes v = false := by
  induction h with
  | list _ ih => exact anyHoldsBytes_eq_false.mpr ih
  | object _ _ ih => exact anyFieldHoldsBytes_eq_false.mpr ih
  | _ => rfl

/-- A plain value can be written. -/
theorem write_eq (h : v.Plain) : write v = .ok (print v) := by
  rw [write, holdsBytes_eq_false h]
  rfl

/-! ## Values read back -/

/-- The characters that no value starts with. -/
def between : List Char := [' ', '\t', '\n', '\r', ']', '\ufeff']

/-- The characters start like a value. -/
def Starts (cs : List Char) : Prop := ∃ c r, cs = c :: r ∧ c ∉ between

theorem Starts.append {cs : List Char} (h : Starts cs) (rest : List Char) :
    Starts (cs ++ rest) := by
  obtain ⟨c, r, rfl, hc⟩ := h
  exact ⟨c, r ++ rest, rfl, hc⟩

theorem starts_cons (hc : c ∉ between) : Starts (c :: r) := ⟨c, r, rfl, hc⟩

theorem Starts.skip {cs : List Char} (h : Starts cs) : Json.skip cs = cs := by
  obtain ⟨c, r, rfl, hc⟩ := h
  have hspace : ¬ isSpace c = true := by
    simp only [between, List.mem_cons, not_or] at hc
    simp [isSpace, hc]
  exact List.dropWhile_cons_of_neg hspace

theorem isSpace_newline (level : Nat) : ∀ c ∈ newline level, isSpace c = true := by
  intro c hc
  rcases List.mem_cons.mp hc with rfl | hc
  · decide
  · rw [List.eq_of_mem_replicate hc]
    decide

theorem skip_newline (level : Nat) (cs : List Char) : skip (newline level ++ cs) = skip cs :=
  List.dropWhile_append_of_pos (isSpace_newline level)

/-- No word and no number starts like white space, a closing bracket, a string or a container. -/
theorem scalar?_eq_none (hc : c ∈ between ++ ['"', '[', '\x7b']) : scalar? (c :: r) = none := by
  simp only [between, List.cons_append, List.nil_append, List.mem_cons, List.not_mem_nil,
    or_false] at hc
  rcases hc with rfl | rfl | rfl | rfl | rfl | rfl | rfl | rfl | rfl <;>
    simp [scalar?, words, after?, unsigned?, wholeDigits?, isDigit]

/-- What a word or a number starts with. -/
theorem scalar?_starts {cs : List Char} {step : Value × List Char} (h : scalar? cs = some step) :
    ∃ c r, cs = c :: r ∧ c ∉ between ++ ['"', '[', '\x7b'] := by
  cases cs with
  | nil => simp [scalar?, words, after?, unsigned?, wholeDigits?] at h
  | cons c r =>
      refine ⟨c, r, rfl, fun hc => ?_⟩
      rw [scalar?_eq_none hc] at h
      cases h

/-- The value is read back, whatever stands behind it. -/
structure Reads (v : Value) : Prop where
  starts : ∀ level, Starts (valueChars level v)
  read : ∀ level fuel rest, Ends rest → (valueChars level v).length ≤ fuel →
    value fuel (valueChars level v ++ rest) = .ok (v, rest)

theorem value_scalar {cs : List Char} {step : Value × List Char} (h : scalar? cs = some step)
    (hfuel : 1 ≤ fuel) : value fuel cs = .ok step := by
  obtain ⟨fuel, rfl⟩ := Nat.exists_eq_add_of_le' hfuel
  obtain ⟨c, r, rfl, hc⟩ := scalar?_starts h
  simp only [List.mem_append, List.mem_cons, not_or] at hc
  rw [value]
  · rw [h]
  · rintro r ⟨⟩
    exact hc.2.1 rfl
  · rintro r ⟨⟩
    exact hc.2.2.2.1 rfl
  · rintro r ⟨⟩
    exact hc.2.2.1 rfl

/-- What is read by itself as a word or a number is read back. -/
theorem Reads.of_scalar {text : List Char} (hchars : ∀ level, valueChars level v = text)
    (hread : ∀ rest, Ends rest → scalar? (text ++ rest) = some (v, rest)) : Reads v where
  starts level := by
    obtain ⟨c, r, htext, hc⟩ := scalar?_starts (hread [] nofun)
    rw [List.append_nil] at htext
    exact ⟨c, r, (hchars level).trans htext, fun hmem => hc (List.mem_append_left _ hmem)⟩
  read level fuel rest hrest hfuel := by
    rw [hchars] at hfuel ⊢
    refine value_scalar (hread rest hrest) (Nat.le_trans ?_ hfuel)
    obtain ⟨c, r, htext, -⟩ := scalar?_starts (hread [] nofun)
    rw [List.append_nil] at htext
    rw [htext]
    exact Nat.succ_pos r.length

theorem ends_newline (level : Nat) : Ends (newline level ++ rest) := by
  rintro c ⟨⟩
  decide

theorem ends_comma : Ends (',' :: rest) := by
  rintro c ⟨⟩
  decide

/-- A written string is read back from behind its opening quote. -/
theorem stringBody_stringChars (s : String) (rest : List Char) :
    ∃ cs, stringChars s ++ rest = '"' :: cs ∧
      ∀ start, stringBody start {} cs = .ok (s, rest) := by
  refine ⟨s.toList.flatMap escapeChar ++ '"' :: rest, ?_, fun start => ?_⟩
  · simp [stringChars]
  · rw [stringBody_escaped]
    simp

theorem reads_text (s : String) : Reads (.text s) where
  starts level := starts_cons (by decide)
  read level fuel rest hrest hfuel := by
    have hpos : 1 ≤ fuel := Nat.le_trans (by simp [valueChars, stringChars]) hfuel
    obtain ⟨fuel, rfl⟩ := Nat.exists_eq_add_of_le' hpos
    obtain ⟨cs, hchars, hbody⟩ := stringBody_stringChars s rest
    rw [valueChars, hchars, value, hbody]
    rfl

/-! ### Lists -/

theorem items_step {acc : List Value} {t : List Char} (hv : Reads v) (ht : Ends t)
    (hfuel : (valueChars level v).length ≤ fuel) :
    items (fuel + 1) acc (valueChars level v ++ t) =
      match skip t with
      | ']' :: t => .ok (.list (v :: acc).reverse, t)
      | ',' :: t => items fuel (v :: acc) (skip t)
      | t => refuse .expectingComma t := by
  rw [items, hv.read level fuel t ht hfuel]
  rfl

/-- What stands behind an item, up to the end of the items. -/
def behindItem (level : Nat) (vs : List Value) : List Char :=
  if vs.isEmpty then [] else ',' :: itemChars level vs

theorem behindItem_nil : behindItem level [] = [] := rfl

theorem behindItem_cons (w : Value) (vs : List Value) :
    behindItem level (w :: vs) = ',' :: itemChars level (w :: vs) := rfl

theorem length_itemChars (level : Nat) (v : Value) (vs : List Value) :
    (itemChars level (v :: vs)).length =
      1 + 2 * level + (valueChars level v).length + (behindItem level vs).length := by
  rw [itemChars, List.length_append, List.length_append, newline, List.length_cons,
    List.length_replicate, Nat.add_comm 1]
  rfl

theorem skip_itemChars (hv : Reads v) (vs : List Value) (t : List Char) :
    skip (itemChars level (v :: vs) ++ t) = valueChars level v ++ (behindItem level vs ++ t) := by
  rw [itemChars, List.append_assoc, List.append_assoc, skip_newline,
    ((hv.starts level).append _).skip]
  rfl

/-- The items of a list are read back from the first one on. -/
theorem items_itemChars (level outer fuel : Nat) (acc : List Value) {vs : List Value}
    (hread : ∀ w ∈ v :: vs, Reads w) (hfuel : (itemChars level (v :: vs)).length ≤ fuel) :
    items fuel acc (skip (itemChars level (v :: vs) ++ (newline outer ++ ']' :: rest))) =
      .ok (.list (acc.reverse ++ v :: vs), rest) := by
  -- The induction is on the items behind the first one; `acc` takes up those that were read.
  induction vs generalizing v acc fuel with
  | nil =>
      have hv := hread v List.mem_cons_self
      rw [length_itemChars] at hfuel
      obtain ⟨fuel, rfl⟩ := Nat.exists_eq_add_of_le' (show 1 ≤ fuel by omega)
      rw [skip_itemChars hv, behindItem_nil, List.nil_append,
        items_step hv (ends_newline outer) (by omega), skip_newline]
      simp [skip, isSpace]
  | cons w vs ih =>
      have hv := hread v List.mem_cons_self
      rw [length_itemChars, behindItem_cons, List.length_cons] at hfuel
      obtain ⟨fuel, rfl⟩ := Nat.exists_eq_add_of_le' (show 1 ≤ fuel by omega)
      have hnext := ih fuel (v :: acc)
        (fun u hu => hread u (List.mem_cons_of_mem _ hu)) (by omega)
      rw [List.reverse_cons, List.append_assoc] at hnext
      rw [skip_itemChars hv, behindItem_cons, List.cons_append,
        items_step hv ends_comma (by omega)]
      exact hnext

theorem value_items {cs : List Char} (h : Starts (skip cs)) :
    value (fuel + 1) ('[' :: cs) = items fuel [] (skip cs) := by
  obtain ⟨c, r, hskip, hc⟩ := h
  rw [value, hskip]
  split
  · rename_i heq
    cases heq
    exact absurd (by decide) hc
  · rfl

/-- A list is read back if its items are. -/
theorem reads_list {vs : List Value} (h : ∀ v ∈ vs, Reads v) : Reads (.list vs) where
  starts level := by
    cases vs with
    | nil => exact starts_cons (by decide)
    | cons v vs => exact starts_cons (by decide)
  read level fuel rest hrest hfuel := by
    have hpos : 1 ≤ fuel := by
      refine Nat.le_trans ?_ hfuel
      cases vs <;> simp [valueChars]
    obtain ⟨fuel, rfl⟩ := Nat.exists_eq_add_of_le' hpos
    cases vs with
    | nil => rfl
    | cons v vs =>
        have hchars : valueChars level (.list (v :: vs)) =
            '[' :: (itemChars (level + 1) (v :: vs) ++ (newline level ++ [']'])) := by
          simp [valueChars]
        rw [hchars, List.length_cons, List.length_append] at hfuel
        have hitems : items fuel [] (skip (itemChars (level + 1) (v :: vs) ++
            (newline level ++ ']' :: rest))) = .ok (.list (v :: vs), rest) :=
          items_itemChars (level + 1) level fuel [] h (by omega)
        have hstarts : Starts (skip (itemChars (level + 1) (v :: vs) ++
            (newline level ++ ']' :: rest))) := by
          have hv := h v List.mem_cons_self
          rw [skip_itemChars hv]
          exact (hv.starts (level + 1)).append _
        rw [hchars, List.cons_append, List.append_assoc, List.append_assoc,
          List.singleton_append, value_items hstarts]
        exact hitems

/-! ### Objects -/

theorem members_step {k : String} {acc : List (String × Value)} {t : List Char} (hv : Reads v)
    (ht : Ends t) (hfuel : (valueChars level v).length ≤ fuel) :
    members (fuel + 1) acc (stringChars k ++ (": ".toList ++ (valueChars level v ++ t))) =
      match skip t with
      | '\x7d' :: t => .ok (.object (Value.put k v acc), t)
      | ',' :: t => members fuel (Value.put k v acc) (skip t)
      | t => refuse .expectingComma t := by
  obtain ⟨cs, hchars, hbody⟩ := stringBody_stringChars k (": ".toList ++ (valueChars level v ++ t))
  have hcolon : skip (": ".toList ++ (valueChars level v ++ t)) =
      ':' :: ' ' :: (valueChars level v ++ t) := by
    simp [skip, isSpace]
  have hvalue : skip (' ' :: (valueChars level v ++ t)) = valueChars level v ++ t :=
    ((hv.starts level).append t).skip
  rw [hchars, members, hbody]
  simp only [bind, Except.bind, hcolon, hvalue, hv.read level fuel t ht hfuel]
  rfl

theorem starts_stringChars (s : String) : Starts (stringChars s) := starts_cons (by decide)

theorem put_of_nodup {acc fields : List (String × Value)} {f : String × Value}
    (h : ((acc ++ f :: fields).map Prod.fst).Nodup) : Value.put f.1 f.2 acc = acc ++ [f] := by
  refine Value.put_of_not_mem fun hmem => ?_
  rw [List.map_append, List.map_cons] at h
  exact (List.nodup_append.mp h).2.2 _ hmem _ List.mem_cons_self rfl

/-- What stands behind an entry, up to the end of the entries. -/
def behindField (level : Nat) (fields : List (String × Value)) : List Char :=
  if fields.isEmpty then [] else ',' :: fieldChars level fields

theorem behindField_nil : behindField level [] = [] := rfl

theorem behindField_cons (g : String × Value) (fields : List (String × Value)) :
    behindField level (g :: fields) = ',' :: fieldChars level (g :: fields) := rfl

theorem length_fieldChars (level : Nat) (f : String × Value) (fields : List (String × Value)) :
    (fieldChars level (f :: fields)).length =
      1 + 2 * level + (stringChars f.1).length + 2 + (valueChars level f.2).length +
        (behindField level fields).length := by
  simp only [fieldChars, List.length_append, newline, List.length_cons, List.length_replicate,
    Nat.add_comm 1]
  rfl

theorem skip_fieldChars (f : String × Value) (fields : List (String × Value)) (t : List Char) :
    skip (fieldChars level (f :: fields) ++ t) =
      stringChars f.1 ++ (": ".toList ++ (valueChars level f.2 ++
        (behindField level fields ++ t))) := by
  rw [fieldChars, List.append_assoc, List.append_assoc, List.append_assoc, List.append_assoc,
    skip_newline, ((starts_stringChars f.1).append _).skip]
  rfl

/-- The entries of an object are read back from the first one on. -/
theorem members_fieldChars (level outer fuel : Nat) (acc : List (String × Value))
    {fields : List (String × Value)} {f : String × Value}
    (hread : ∀ g ∈ f :: fields, Reads g.2)
    (hnodup : ((acc ++ f :: fields).map Prod.fst).Nodup)
    (hfuel : (fieldChars level (f :: fields)).length ≤ fuel) :
    members fuel acc (skip (fieldChars level (f :: fields) ++ (newline outer ++ '\x7d' :: rest))) =
      .ok (.object (acc ++ f :: fields), rest) := by
  induction fields generalizing f acc fuel with
  | nil =>
      have hv := hread f List.mem_cons_self
      rw [length_fieldChars] at hfuel
      obtain ⟨fuel, rfl⟩ := Nat.exists_eq_add_of_le' (show 1 ≤ fuel by omega)
      rw [skip_fieldChars, behindField_nil, List.nil_append,
        members_step hv (ends_newline outer) (by omega), skip_newline, put_of_nodup hnodup]
      simp [skip, isSpace]
  | cons g fields ih =>
      have hv := hread f List.mem_cons_self
      rw [length_fieldChars, behindField_cons, List.length_cons] at hfuel
      obtain ⟨fuel, rfl⟩ := Nat.exists_eq_add_of_le' (show 1 ≤ fuel by omega)
      -- The next entries are read with the first one put at the end of `acc`.
      have hput := put_of_nodup hnodup
      rw [List.append_cons] at hnodup
      have hnext := ih fuel (acc ++ [f])
        (fun h hmem => hread h (List.mem_cons_of_mem _ hmem)) hnodup (by omega)
      rw [← List.append_cons, ← hput] at hnext
      rw [skip_fieldChars, behindField_cons, List.cons_append,
        members_step hv ends_comma (by omega)]
      exact hnext

theorem value_members {cs r : List Char} (h : skip cs = '"' :: r) :
    value (fuel + 1) ('\x7b' :: cs) = members fuel [] (skip cs) := by
  rw [value, h]
  rfl

/-- An object is read back if the values of its entries are, and its keys differ. -/
theorem reads_object {fields : List (String × Value)} (hnodup : (fields.map Prod.fst).Nodup)
    (h : ∀ f ∈ fields, Reads f.2) : Reads (.object fields) where
  starts level := by
    cases fields with
    | nil => exact starts_cons (by decide)
    | cons f fields => exact starts_cons (by decide)
  read level fuel rest hrest hfuel := by
    have hpos : 1 ≤ fuel := by
      refine Nat.le_trans ?_ hfuel
      cases fields <;> simp [valueChars]
    obtain ⟨fuel, rfl⟩ := Nat.exists_eq_add_of_le' hpos
    cases fields with
    | nil => rfl
    | cons f fields =>
        have hchars : valueChars level (.object (f :: fields)) =
            '\x7b' :: (fieldChars (level + 1) (f :: fields) ++ (newline level ++ ['\x7d'])) := by
          simp [valueChars]
        rw [hchars, List.length_cons, List.length_append] at hfuel
        have hmembers : members fuel [] (skip (fieldChars (level + 1) (f :: fields) ++
            (newline level ++ '\x7d' :: rest))) = .ok (.object (f :: fields), rest) :=
          members_fieldChars (level + 1) level fuel [] h hnodup (by omega)
        obtain ⟨r, hquote⟩ : ∃ r, skip (fieldChars (level + 1) (f :: fields) ++
            (newline level ++ '\x7d' :: rest)) = '"' :: r := by
          rw [skip_fieldChars]
          exact ⟨_, rfl⟩
        rw [hchars, List.cons_append, List.append_assoc, List.append_assoc,
          List.singleton_append, value_members hquote]
        exact hmembers

/-- A plain value that was written is read back. -/
theorem reads_plain (h : v.Plain) : Reads v := by
  induction h with
  | null => exact .of_scalar (fun _ => rfl) fun rest _ => rfl
  | bool b =>
      cases b
      · exact .of_scalar (fun _ => rfl) fun rest _ => rfl
      · exact .of_scalar (fun _ => rfl) fun rest _ => rfl
  | int n => exact .of_scalar (fun _ => rfl) fun rest hrest => scalar?_int n hrest
  | float x => exact .of_scalar (fun _ => rfl) fun rest hrest => scalar?_float x hrest
  | text s => exact reads_text s
  | list _ ih => exact reads_list ih
  | object hnodup _ ih => exact reads_object hnodup ih

/-- A plain value that was written on lines of its own is read back. -/
theorem readChars_valueChars (h : v.Plain) : readChars (valueChars 0 v ++ ['\n']) = .ok v := by
  have hv := reads_plain h
  obtain ⟨c, r, hchars, hc⟩ := (hv.starts 0).append ['\n']
  have hmark : c ≠ '\ufeff' := by
    rintro rfl
    exact hc (by decide)
  have hread := hv.read 0 (2 * (valueChars 0 v ++ ['\n']).length + 2) ['\n'] (ends_newline 0)
    (by rw [List.length_append]; omega)
  have hhead : (valueChars 0 v ++ ['\n']).head? ≠ some '\ufeff' := by
    rw [hchars]
    simpa using hmark
  rw [readChars, if_neg hhead, ((hv.starts 0).append _).skip, hread]
  rfl

/-! ## What is read -/

theorem plain_of_unsigned? {negative : Bool} {cs : List Char}
    (h : unsigned? negative cs = some (v, r)) : v.Plain := by
  unfold unsigned? at h
  simp only [Option.bind_eq_bind, Option.bind_eq_some_iff] at h
  obtain ⟨_, -, h⟩ := h
  split at h
  · cases h
    exact .int _
  · cases h
    exact .float _
  · cases h
    exact .float _

theorem plain_of_scalar? {cs : List Char} (h : scalar? cs = some (v, r)) : v.Plain := by
  unfold scalar? at h
  split at h
  · rename_i step hword
    cases h
    obtain ⟨w, hw, hstep⟩ := List.exists_of_findSome?_eq_some hword
    obtain ⟨t, -, heq⟩ := Option.map_eq_some_iff.mp hstep
    cases heq
    have hwords : ∀ w ∈ words, w.2.Plain := by
      simp only [words, List.forall_mem_cons]
      exact ⟨.null, .bool _, .bool _, .float _, .float _, .float _, List.forall_mem_nil _⟩
    exact hwords w hw
  · split at h
    · exact plain_of_unsigned? h
    · exact plain_of_unsigned? h

theorem map_fst_put {key : String} {fields : List (String × Value)}
    (h : key ∈ fields.map Prod.fst) :
    (Value.put key v fields).map Prod.fst = fields.map Prod.fst := by
  induction fields with
  | nil => cases h
  | cons f r ih =>
      unfold Value.put
      split
      · rename_i heq
        rw [List.map_cons, List.map_cons, beq_iff_eq.mp heq]
      · rename_i hne
        have hr : key ∈ r.map Prod.fst := by
          rcases List.mem_cons.mp h with rfl | h
          · exact absurd (beq_self_eq_true _) hne
          · exact h
        rw [List.map_cons, List.map_cons, ih hr]

/-- Putting an entry leaves the keys different. -/
theorem nodup_put {key : String} {fields : List (String × Value)}
    (h : (fields.map Prod.fst).Nodup) : ((Value.put key v fields).map Prod.fst).Nodup := by
  by_cases hmem : key ∈ fields.map Prod.fst
  · rwa [map_fst_put hmem]
  · rw [Value.put_of_not_mem hmem, List.map_append]
    refine List.nodup_append.mpr ⟨h, List.nodup_singleton _, ?_⟩
    rintro k hk _ hk' rfl
    obtain rfl := List.mem_singleton.mp hk'
    exact hmem hk

theorem plain_put {key : String} {fields : List (String × Value)} (hv : v.Plain)
    (h : ∀ f ∈ fields, f.2.Plain) : ∀ f ∈ Value.put key v fields, f.2.Plain := by
  intro f hf
  rcases Value.mem_put hf with rfl | hf
  · exact hv
  · exact h f hf

/-- What is read with so much fuel is plain, if what was read before it is. -/
structure ReadsPlain (fuel : Nat) : Prop where
  value : ∀ cs r v, Json.value fuel cs = .ok (v, r) → v.Plain
  members : ∀ acc cs r v, (acc.map Prod.fst).Nodup → (∀ f ∈ acc, f.2.Plain) →
    Json.members fuel acc cs = .ok (v, r) → v.Plain
  items : ∀ acc cs r v, (∀ w ∈ acc, w.Plain) → Json.items fuel acc cs = .ok (v, r) → v.Plain

namespace ReadsPlain

theorem value_succ (h : ReadsPlain fuel) {cs : List Char}
    (hv : Json.value (fuel + 1) cs = .ok (v, r)) : v.Plain := by
  rw [Json.value.eq_def] at hv
  dsimp only at hv
  split at hv
  · obtain ⟨s, -, hv⟩ := bind_eq_ok.mp hv
    cases hv
    exact .text s.1
  · split at hv
    · cases hv
      exact .object List.nodup_nil nofun
    · exact h.members [] _ r v List.nodup_nil nofun hv
  · split at hv
    · cases hv
      exact .list nofun
    · exact h.items [] _ r v nofun hv
  · split at hv
    · rename_i hscalar
      cases hv
      exact plain_of_scalar? hscalar
    · cases hv

theorem members_succ (h : ReadsPlain fuel) {acc : List (String × Value)} {cs : List Char}
    (hnodup : (acc.map Prod.fst).Nodup) (hacc : ∀ f ∈ acc, f.2.Plain)
    (hv : Json.members (fuel + 1) acc cs = .ok (v, r)) : v.Plain := by
  rw [Json.members.eq_def] at hv
  dsimp only at hv
  split at hv
  · obtain ⟨key, -, hv⟩ := bind_eq_ok.mp hv
    split at hv
    · obtain ⟨w, hw, hv⟩ := bind_eq_ok.mp hv
      have hput : ∀ f ∈ Value.put key.1 w.1 acc, f.2.Plain := plain_put (h.value _ _ _ hw) hacc
      split at hv
      · cases hv
        exact .object (nodup_put hnodup) hput
      · exact h.members _ _ _ _ (nodup_put hnodup) hput hv
      · cases hv
    · cases hv
  · cases hv

theorem items_succ (h : ReadsPlain fuel) {acc : List Value} {cs : List Char}
    (hacc : ∀ w ∈ acc, w.Plain) (hv : Json.items (fuel + 1) acc cs = .ok (v, r)) : v.Plain := by
  rw [Json.items.eq_def] at hv
  obtain ⟨w, hw, hv⟩ := bind_eq_ok.mp hv
  have hplain : ∀ u ∈ w.1 :: acc, u.Plain := by
    rw [List.forall_mem_cons]
    exact ⟨h.value _ _ _ hw, hacc⟩
  dsimp only at hv
  split at hv
  · cases hv
    exact .list fun u hu => hplain u (List.mem_reverse.mp hu)
  · exact h.items _ _ _ _ hplain hv
  · cases hv

end ReadsPlain

/-- Whatever is read from a value, an entry or an item on is plain, with any fuel. -/
theorem readsPlain (fuel : Nat) : ReadsPlain fuel := by
  induction fuel with
  | zero => exact ⟨nofun, nofun, nofun⟩
  | succ fuel ih =>
      exact ⟨fun _ _ _ => ih.value_succ, fun _ _ _ _ => ih.members_succ,
        fun _ _ _ _ => ih.items_succ⟩

theorem plain_of_readChars {cs : List Char} (h : readChars cs = .ok v) : v.Plain := by
  unfold readChars at h
  simp only [bind_eq_ok, error_bind, guard_eq_ok, refuse] at h
  obtain ⟨-, w, hw, h⟩ := h
  have hplain := (readsPlain _).value _ _ _ hw
  split at h
  · cases h
    exact hplain
  · cases h

/-- Whatever is read is plain. -/
theorem plain_of_read {s : String} (h : read s = .ok v) : v.Plain := by
  unfold read at h
  cases hread : readChars s.toList with
  | ok w =>
      rw [hread] at h
      cases h
      exact plain_of_readChars hread
  | error e =>
      rw [hread] at h
      cases h

end Json

end Montage
