/-
# Standard JSON

The printer writes floats that are not finite as `NaN`, `Infinity` and `-Infinity`, for
which JSON has no rule.  `Derives` gives the rules:

    value      a word, a number, a string, [], [items], {}, {members}
    item       a value, with white space around it
    items      an item; or an item, a comma and items
    member     a string, with white space around it, a colon and an item
    members    a member; or a member, a comma and members

What is printed follows them exactly if every number in the value is finite
(`standard_print_iff`).  In one direction the rules are put together along the value.  In
the other, no rule has an `I` or an `N` outside of a string, and the three words do:
`Leaves cs out` says that `out` is what stands outside of the strings of `cs`.
-/
import Montage.Proofs.File
import Montage.Proofs.Finite

namespace Montage

namespace Json

/-! ## The rules -/

/-- White space. -/
def Blank (cs : List Char) : Prop := ∀ c ∈ cs, isSpace c = true

/-- A character of a string: as itself, as a letter, or as a number in base sixteen. -/
inductive CharText : List Char → Prop
  | plain {c : Char} : c ≠ '"' → c ≠ '\\' → ¬ c.toNat < 0x20 → CharText [c]
  | letter {c : Char} : c ∈ ['"', '\\', '/', 'b', 'f', 'n', 'r', 't'] → CharText ['\\', c]
  | unit {a b c d : Char} : (∀ x ∈ [a, b, c, d], (hexValue? x).isSome = true) →
      CharText ['\\', 'u', a, b, c, d]

/-- Characters of a string. -/
inductive BodyText : List Char → Prop
  | nil : BodyText []
  | cons {cs rest : List Char} : CharText cs → BodyText rest → BodyText (cs ++ rest)

/-- A string in its quotes. -/
def StringText (cs : List Char) : Prop := ∃ body, BodyText body ∧ cs = '"' :: (body ++ ['"'])

/-- Digits, at least one. -/
def DigitText (cs : List Char) : Prop := cs ≠ [] ∧ ∀ c ∈ cs, isDigit c = true

/-- A point and digits, or nothing. -/
def FractionText (cs : List Char) : Prop := cs = [] ∨ ∃ ds, DigitText ds ∧ cs = '.' :: ds

/-- A mark, a sign that may be left out, and digits; or nothing. -/
def ScaleText (cs : List Char) : Prop :=
  cs = [] ∨ ∃ e ∈ ['e', 'E'], ∃ sign ∈ [[], ['+'], ['-']], ∃ ds, DigitText ds ∧
    cs = e :: (sign ++ ds)

/-- A number: a sign, digits with no needless zero in front, a fraction and an exponent. -/
def NumberText (cs : List Char) : Prop :=
  ∃ negative whole fraction scale, cs = signChars negative ++ (whole ++ (fraction ++ scale)) ∧
    DigitText whole ∧ (∀ r, whole = '0' :: r → r = []) ∧ FractionText fraction ∧ ScaleText scale

/-- What a rule is about. -/
inductive Symbol where
  | value
  | item
  | items
  | member
  | members

/-- The rules of JSON. -/
inductive Derives : Symbol → List Char → Prop
  | word {cs : List Char} : cs ∈ ["null".toList, "true".toList, "false".toList] →
      Derives .value cs
  | number {cs : List Char} : NumberText cs → Derives .value cs
  | string {cs : List Char} : StringText cs → Derives .value cs
  | emptyList {cs : List Char} : Blank cs → Derives .value ('[' :: (cs ++ [']']))
  | list {cs : List Char} : Derives .items cs → Derives .value ('[' :: (cs ++ [']']))
  | emptyObject {cs : List Char} : Blank cs → Derives .value ('\x7b' :: (cs ++ ['\x7d']))
  | object {cs : List Char} : Derives .members cs → Derives .value ('\x7b' :: (cs ++ ['\x7d']))
  | item {before cs behind : List Char} : Blank before → Derives .value cs → Blank behind →
      Derives .item (before ++ (cs ++ behind))
  | lastItem {cs : List Char} : Derives .item cs → Derives .items cs
  | items {cs rest : List Char} : Derives .item cs → Derives .items rest →
      Derives .items (cs ++ ',' :: rest)
  | member {before key behind cs : List Char} : Blank before → StringText key → Blank behind →
      Derives .item cs → Derives .member (before ++ (key ++ (behind ++ ':' :: cs)))
  | lastMember {cs : List Char} : Derives .member cs → Derives .members cs
  | members {cs rest : List Char} : Derives .member cs → Derives .members rest →
      Derives .members (cs ++ ',' :: rest)

/-- A text that is JSON by the rules. -/
def Standard (text : String) : Prop := Derives .item text.toList

/-! ## What is printed -/

theorem mem_letters_of_escape? {c d : Char} (h : escape? d = some c) :
    d ∈ ['"', '\\', '/', 'b', 'f', 'n', 'r', 't'] := by
  unfold escape? at h
  split_ifs at h
  all_goals simp_all only [Bool.or_eq_true, beq_iff_eq, List.mem_cons]
  all_goals tauto

theorem isSome_hexValue?_hex {n : Nat} (hn : n < 0x20) :
    ∀ x ∈ Text.hex 4 n, (hexValue? x).isSome = true := by
  have hall : ∀ n < 0x20, ((Text.hex 4 n).all fun x => (hexValue? x).isSome) = true := by decide
  exact List.all_eq_true.mp (hall n hn)

theorem charText_escapeChar (c : Char) : CharText (escapeChar c) := by
  rcases escape_cases c with ⟨hchars, hquote, hslash, hvisible⟩ | ⟨d, hchars, -, hescape⟩ |
    ⟨hchars, hcontrol⟩
  · rw [hchars]
    exact .plain hquote hslash hvisible
  · rw [hchars]
    exact .letter (mem_letters_of_escape? hescape)
  · obtain ⟨a, b, d, e, hhex, -⟩ := hex4?_hex hcontrol
    rw [hchars, hhex]
    exact .unit (hhex ▸ isSome_hexValue?_hex hcontrol)

theorem stringText_stringChars (s : String) : StringText (stringChars s) := by
  refine ⟨s.toList.flatMap escapeChar, ?_, rfl⟩
  induction s.toList with
  | nil => exact .nil
  | cons c cs ih => exact .cons (charText_escapeChar c) ih

theorem blank_nil : Blank [] := nofun

theorem blank_newline (level : Nat) : Blank (newline level) := isSpace_newline level

theorem Numeral.Written.numberText {x : Numeral} (h : x.Written) (negative : Bool) :
    NumberText (signChars negative ++ x.chars) := by
  refine ⟨negative, x.whole, x.fractionChars, x.scaleChars, rfl, ?_, ?_, ?_, ?_⟩
  · rcases h.whole with hwhole | ⟨c, r, hwhole, -, hdigits⟩
    · rw [hwhole]
      exact ⟨nofun, List.forall_mem_singleton.mpr rfl⟩
    · rw [hwhole]
      exact ⟨nofun, hdigits⟩
  · intro r hr
    rcases h.whole with hwhole | ⟨c, s, hwhole, hc, -⟩
    · rw [hwhole] at hr
      exact (List.cons.inj hr).2.symm
    · rw [hwhole] at hr
      exact absurd (List.cons.inj hr).1 hc
  · unfold fractionChars
    cases hfraction : x.fraction with
    | nil => exact .inl rfl
    | cons c r => exact .inr ⟨c :: r, ⟨nofun, hfraction ▸ h.fraction⟩, rfl⟩
  · unfold scaleChars
    cases x.exponent with
    | none => exact .inl rfl
    | some e =>
        refine .inr ⟨'e', by decide, [if e < 0 then '-' else '+'], ?_, exponentDigits e,
          ⟨exponentDigits_ne_nil e, isDigit_exponentDigits e⟩, rfl⟩
        split <;> decide

theorem numberText_int (n : Int) : NumberText (toString n).toList := by
  have hnumber := (written_toDigits n.natAbs).numberText (n < 0)
  rwa [toList_toString_int, ← List.append_nil (Nat.toDigits 10 n.natAbs)]

theorem numberText_float {x : Binary64} (hx : x.isFinite = true) : NumberText (floatChars x) := by
  cases x with
  | finite n m p hc =>
      obtain ⟨y, hy, hchars, -⟩ := exists_numeral n m p hc
      rw [hchars]
      exact hy.numberText n
  | _ => cases hx

theorem derives_itemChars {items : List Value} {level : Nat} (outer : Nat) (hne : items ≠ [])
    (h : ∀ v ∈ items, Derives .value (valueChars level v)) :
    Derives .items (itemChars level items ++ newline outer) := by
  induction items with
  | nil => exact absurd rfl hne
  | cons v r ih =>
      have hv := h v List.mem_cons_self
      have hbefore := blank_newline level
      cases r with
      | nil =>
          have hitem := Derives.item hbefore hv (blank_newline outer)
          simpa [itemChars] using Derives.lastItem hitem
      | cons w r =>
          have hitem := Derives.item hbefore hv blank_nil
          have hrest := ih (List.cons_ne_nil w r) fun u hu => h u (List.mem_cons_of_mem _ hu)
          rw [itemChars]
          simpa using Derives.items hitem hrest

theorem derives_fieldChars {fields : List (String × Value)} {level : Nat} (outer : Nat)
    (hne : fields ≠ []) (h : ∀ f ∈ fields, Derives .value (valueChars level f.2)) :
    Derives .members (fieldChars level fields ++ newline outer) := by
  induction fields with
  | nil => exact absurd rfl hne
  | cons f r ih =>
      have hv := h f List.mem_cons_self
      have hbefore := blank_newline level
      have hkey := stringText_stringChars f.1
      have hspace : Blank [' '] := by
        rintro c hc
        rw [List.mem_singleton.mp hc]
        rfl
      cases r with
      | nil =>
          have hitem := Derives.item hspace hv (blank_newline outer)
          have hmember := Derives.member hbefore hkey blank_nil hitem
          simpa [fieldChars] using Derives.lastMember hmember
      | cons g r =>
          have hitem := Derives.item hspace hv blank_nil
          have hmember := Derives.member hbefore hkey blank_nil hitem
          have hrest := ih (List.cons_ne_nil g r) fun u hu => h u (List.mem_cons_of_mem _ hu)
          rw [fieldChars]
          simpa using Derives.members hmember hrest

/-- A finite value is printed by the rules. -/
theorem derives_valueChars {v : Value} (h : v.Finite) (hbytes : holdsBytes v = false)
    (level : Nat) : Derives .value (valueChars level v) := by
  induction h generalizing level with
  | null => exact .word List.mem_cons_self
  | bool b =>
      refine .word (List.mem_cons_of_mem _ ?_)
      cases b with
      | true => exact List.mem_cons_self
      | false => exact List.mem_cons_of_mem _ List.mem_cons_self
  | int n => exact .number (numberText_int n)
  | float hx => exact .number (numberText_float hx)
  | text s => exact .string (stringText_stringChars s)
  | bytes bs => cases hbytes
  | @list items _ ih =>
      have hitems := anyHoldsBytes_eq_false.mp hbytes
      rw [valueChars]
      split
      · exact .emptyList blank_nil
      · rename_i hne
        have hinner := derives_itemChars level (by simpa using hne)
          fun v hv => ih v hv (hitems v hv) (level + 1)
        simpa using Derives.list hinner
  | @object fields _ ih =>
      have hfields := anyFieldHoldsBytes_eq_false.mp hbytes
      rw [valueChars]
      split
      · exact .emptyObject blank_nil
      · rename_i hne
        have hinner := derives_fieldChars level (by simpa using hne)
          fun f hf => ih f hf (hfields f hf) (level + 1)
        simpa using Derives.object hinner

/-! ## What stands outside of strings -/

/-- Where a character stands. -/
inductive Place where
  | outside
  | inside
  | escaped
deriving DecidableEq

/-- Where the next character stands. -/
def Place.next (c : Char) : Place → Place
  | outside => if c = '"' then inside else outside
  | inside => if c = '"' then outside else if c = '\\' then escaped else inside
  | escaped => inside

/-- The characters outside of strings. -/
def bare (p : Place) : List Char → List Char
  | [] => []
  | c :: cs => if p = .outside ∧ c ≠ '"' then c :: bare (p.next c) cs else bare (p.next c) cs

/-- The characters start and end outside of strings, and leave these there. -/
def Leaves (cs out : List Char) : Prop :=
  ∀ rest, bare .outside (cs ++ rest) = out ++ bare .outside rest

variable {cs ds xs ys : List Char} {P Q : Prop}

theorem Leaves.bare (h : Leaves cs xs) : bare .outside cs = xs := by
  have hcs := h []
  rwa [List.append_nil, Json.bare, List.append_nil] at hcs

theorem Leaves.append (hcs : Leaves cs xs) (hds : Leaves ds ys) : Leaves (cs ++ ds) (xs ++ ys) := by
  intro rest
  rw [List.append_assoc, hcs, hds, List.append_assoc]

theorem leaves_plain (h : '"' ∉ cs) : Leaves cs cs := by
  intro rest
  induction cs with
  | nil => rfl
  | cons c cs ih =>
      obtain ⟨hc, hcs⟩ := not_or.mp (mt List.mem_cons.mpr h)
      have hnext : Place.next c .outside = .outside := if_neg (Ne.symm hc)
      rw [List.cons_append, Json.bare, if_pos ⟨rfl, Ne.symm hc⟩, hnext, ih hcs]
      rfl

theorem bare_charText (h : CharText cs) (rest : List Char) :
    bare .inside (cs ++ rest) = bare .inside rest := by
  cases h with
  | plain hquote hslash _ => simp [bare, Place.next, hquote, hslash]
  | letter => simp [bare, Place.next]
  | unit hdigits =>
      simp only [List.mem_cons, List.not_mem_nil, or_false, forall_eq_or_imp, forall_eq] at hdigits
      have hne {x : Char} (hx : (hexValue? x).isSome = true) : x ≠ '"' ∧ x ≠ '\\' := by
        constructor <;> (rintro rfl; cases hx)
      obtain ⟨ha, hb, hc, hd⟩ := hdigits
      simp [bare, Place.next, hne ha, hne hb, hne hc, hne hd]

theorem leaves_stringText (h : StringText cs) : Leaves cs [] := by
  obtain ⟨body, hbody, rfl⟩ := h
  intro rest
  show bare .inside (body ++ ['"'] ++ rest) = bare .outside rest
  induction hbody with
  | nil => rfl
  | cons hc _ ih =>
      rw [List.append_assoc, List.append_assoc, bare_charText hc, ← List.append_assoc]
      exact ih

/-! ## The words for what is not finite -/

/-- Neither of the letters that only these words have outside of strings. -/
def Quiet (out : List Char) : Prop := 'I' ∉ out ∧ 'N' ∉ out

instance (out : List Char) : Decidable (Quiet out) :=
  inferInstanceAs (Decidable ('I' ∉ out ∧ 'N' ∉ out))

/-- The characters leave something outside of strings, and this says so if it is quiet. -/
def Tells (P : Prop) (cs : List Char) : Prop := ∃ out, Leaves cs out ∧ (Quiet out → P)

/-- The characters leave nothing but what is quiet. -/
def Calm (cs : List Char) : Prop := ∃ out, Leaves cs out ∧ Quiet out

theorem quiet_append : Quiet (xs ++ ys) ↔ Quiet xs ∧ Quiet ys := by
  unfold Quiet
  simp only [List.mem_append, not_or]
  tauto

theorem Calm.append (hcs : Calm cs) (hds : Calm ds) : Calm (cs ++ ds) := by
  obtain ⟨xs, hxs, hx⟩ := hcs
  obtain ⟨ys, hys, hy⟩ := hds
  exact ⟨xs ++ ys, hxs.append hys, quiet_append.mpr ⟨hx, hy⟩⟩

theorem Tells.append (hcs : Tells P cs) (hds : Tells Q ds) : Tells (P ∧ Q) (cs ++ ds) := by
  obtain ⟨xs, hxs, hx⟩ := hcs
  obtain ⟨ys, hys, hy⟩ := hds
  refine ⟨xs ++ ys, hxs.append hys, fun h => ?_⟩
  obtain ⟨hquiet, hquiet'⟩ := quiet_append.mp h
  exact ⟨hx hquiet, hy hquiet'⟩

theorem Tells.imp (h : Tells P cs) (himp : P → Q) : Tells Q cs := by
  obtain ⟨xs, hxs, hP⟩ := h
  exact ⟨xs, hxs, fun hquiet => himp (hP hquiet)⟩

theorem Calm.tells (h : Calm cs) : Tells True cs := by
  obtain ⟨xs, hxs, -⟩ := h
  exact ⟨xs, hxs, fun _ => trivial⟩

theorem Tells.of_calm (h : Tells P cs) (hcalm : Calm cs) : P := by
  obtain ⟨xs, hxs, hP⟩ := h
  obtain ⟨ys, hys, hquiet⟩ := hcalm
  rw [← hys.bare, hxs.bare] at hquiet
  exact hP hquiet

/-- The characters that are not part of a word or a string. -/
def isMark (c : Char) : Bool :=
  isDigit c || isSpace c || ['-', '+', '.', 'e', 'E'].contains c ||
    ['[', ']', '\x7b', '\x7d', ',', ':'].contains c

theorem calm_marks (h : ∀ c ∈ cs, isMark c = true) : Calm cs := by
  have hnot {c : Char} (hc : isMark c = false) : c ∉ cs := by
    intro hmem
    rw [h c hmem] at hc
    cases hc
  exact ⟨cs, leaves_plain (hnot (by decide)), hnot (by decide), hnot (by decide)⟩

theorem calm_digits (h : ∀ c ∈ cs, isDigit c = true) : Calm cs :=
  calm_marks fun c hc => by simp [isMark, h c hc]

theorem Blank.calm (h : Blank cs) : Calm cs :=
  calm_marks fun c hc => by simp [isMark, h c hc]

theorem StringText.calm (h : StringText cs) : Calm cs := ⟨[], leaves_stringText h, by decide⟩

theorem calm_of_plain (h : '"' ∉ cs ∧ Quiet cs) : Calm cs := ⟨cs, leaves_plain h.1, h.2⟩

theorem calm_nil : Calm [] := calm_of_plain (by decide)

theorem calm_signChars (negative : Bool) : Calm (signChars negative) := by
  cases negative <;> exact calm_of_plain (by decide)

theorem NumberText.calm (h : NumberText cs) : Calm cs := by
  obtain ⟨negative, whole, fraction, scale, rfl, ⟨-, hwhole⟩, -, hfraction, hscale⟩ := h
  refine (calm_signChars negative).append ((calm_digits hwhole).append (.append ?_ ?_))
  · rcases hfraction with rfl | ⟨ds, ⟨-, hds⟩, rfl⟩
    · exact calm_nil
    · have hpoint : Calm ['.'] := calm_of_plain (by decide)
      exact hpoint.append (calm_digits hds)
  · rcases hscale with rfl | ⟨e, he, sign, hsign, ds, ⟨-, hds⟩, rfl⟩
    · exact calm_nil
    · have hmarks : ∀ e ∈ ['e', 'E'], ∀ sign ∈ [[], ['+'], ['-']],
          (e :: sign).all isMark = true := by simp [isMark]
      have hscale := calm_marks (List.all_eq_true.mp (hmarks e he sign hsign))
      exact hscale.append (calm_digits hds)

/-- What follows the rules is quiet outside of strings. -/
theorem Derives.calm {symbol : Symbol} (h : Derives symbol cs) : Calm cs := by
  have hcomma : Calm [','] := calm_of_plain (by decide)
  have hcolon : Calm [':'] := calm_of_plain (by decide)
  have haround {opening closing : Char} (h : isMark opening = true ∧ isMark closing = true)
      {cs : List Char} (hcs : Calm cs) : Calm (opening :: (cs ++ [closing])) := by
    have hopening : Calm [opening] := calm_marks (by simpa using h.1)
    have hclosing : Calm [closing] := calm_marks (by simpa using h.2)
    exact hopening.append (hcs.append hclosing)
  induction h with
  | @word cs hmem =>
      simp only [List.mem_cons, List.not_mem_nil, or_false] at hmem
      rcases hmem with rfl | rfl | rfl <;> exact calm_of_plain (by decide)
  | number h => exact h.calm
  | string h => exact h.calm
  | emptyList h => exact haround (by decide) h.calm
  | list _ ih => exact haround (by decide) ih
  | emptyObject h => exact haround (by decide) h.calm
  | object _ ih => exact haround (by decide) ih
  | item hbefore _ hbehind ih => exact hbefore.calm.append (ih.append hbehind.calm)
  | lastItem _ ih => exact ih
  | items _ _ ih ihrest => exact ih.append (hcomma.append ihrest)
  | member hbefore hkey hbehind _ ih =>
      exact hbefore.calm.append (hkey.calm.append (hbehind.calm.append (hcolon.append ih)))
  | lastMember _ ih => exact ih
  | members _ _ ih ihrest => exact ih.append (hcomma.append ihrest)

theorem tells_itemChars {items : List Value} (level : Nat)
    (h : ∀ v ∈ items, Tells v.Finite (valueChars level v)) :
    Tells (∀ v ∈ items, v.Finite) (itemChars level items) := by
  induction items with
  | nil => exact calm_nil.tells.imp fun _ => nofun
  | cons v r ih =>
      have hrest := ih fun w hw => h w (List.mem_cons_of_mem _ hw)
      have hv := (blank_newline level).calm.tells.append (h v List.mem_cons_self)
      rw [itemChars]
      split
      · rename_i hr
        rw [List.isEmpty_iff.mp hr, List.append_nil]
        exact hv.imp fun hv => by simpa using hv.2
      · have hcomma : Calm [','] := calm_of_plain (by decide)
        refine (hv.append (hcomma.tells.append hrest)).imp ?_
        rintro ⟨⟨-, hv⟩, -, hr⟩
        exact List.forall_mem_cons.mpr ⟨hv, hr⟩

theorem tells_fieldChars {fields : List (String × Value)} (level : Nat)
    (h : ∀ f ∈ fields, Tells f.2.Finite (valueChars level f.2)) :
    Tells (∀ f ∈ fields, f.2.Finite) (fieldChars level fields) := by
  induction fields with
  | nil => exact calm_nil.tells.imp fun _ => nofun
  | cons f r ih =>
      have hrest := ih fun g hg => h g (List.mem_cons_of_mem _ hg)
      have hkey := (blank_newline level).calm.append (stringText_stringChars f.1).calm
      have hcolon : Calm ": ".toList := calm_of_plain (by decide)
      have hf := (hkey.append hcolon).tells.append (h f List.mem_cons_self)
      rw [fieldChars]
      split
      · rename_i hr
        rw [List.isEmpty_iff.mp hr, List.append_nil]
        exact hf.imp fun hf => by simpa using hf.2
      · have hcomma : Calm [','] := calm_of_plain (by decide)
        refine (hf.append (hcomma.tells.append hrest)).imp ?_
        rintro ⟨⟨-, hf⟩, -, hr⟩
        exact List.forall_mem_cons.mpr ⟨hf, hr⟩

theorem tells_floatChars (x : Binary64) : Tells (x.isFinite = true) (floatChars x) := by
  cases x with
  | nan => exact ⟨_, leaves_plain (by decide), by decide⟩
  | infinite n => cases n <;> exact ⟨_, leaves_plain (by decide), by decide⟩
  | finite n m p hc => exact (numberText_float rfl).calm.tells.imp fun _ => rfl

/-- What a value leaves outside of strings tells whether it is finite. -/
theorem tells_valueChars (v : Value) (level : Nat) : Tells v.Finite (valueChars level v) := by
  have haround (level : Nat) {opening closing : Char}
      (h : isMark opening = true ∧ isMark closing = true) {P : Prop} {cs : List Char}
      (hcs : Tells P cs) : Tells P (opening :: cs ++ newline level ++ [closing]) := by
    have hopening : Calm [opening] := calm_marks (by simpa using h.1)
    have hclosing : Calm [closing] := calm_marks (by simpa using h.2)
    have hbehind := (blank_newline level).calm.append hclosing
    rw [List.append_assoc]
    exact ((hopening.tells.append hcs).append hbehind.tells).imp fun h => h.1.2
  induction v using Value.induction generalizing level with
  | null =>
      have hword : Calm "null".toList := calm_of_plain (by decide)
      exact hword.tells.imp fun _ => .null
  | bool b =>
      have hword : Calm (if b then "true" else "false").toList := by
        cases b <;> exact calm_of_plain (by decide)
      exact hword.tells.imp fun _ => .bool b
  | int n => exact (numberText_int n).calm.tells.imp fun _ => .int n
  | float x => exact (tells_floatChars x).imp .float
  | text s => exact (stringText_stringChars s).calm.tells.imp fun _ => .text s
  | bytes bs => exact calm_nil.tells.imp fun _ => .bytes bs
  | list items ih =>
      rw [valueChars]
      split
      · rename_i hnil
        rw [List.isEmpty_iff.mp hnil]
        exact (calm_of_plain (by decide)).tells.imp fun _ => .list (List.forall_mem_nil _)
      · exact (haround level (by decide) (tells_itemChars _ fun v hv => ih v hv _)).imp .list
  | object fields ih =>
      rw [valueChars]
      split
      · rename_i hnil
        rw [List.isEmpty_iff.mp hnil]
        exact (calm_of_plain (by decide)).tells.imp fun _ => .object (List.forall_mem_nil _)
      · exact (haround level (by decide) (tells_fieldChars _ fun f hf => ih f hf _)).imp .object

/-- The file of a value is JSON by the rules exactly if every number in it is finite. -/
theorem standard_print_iff {v : Value} (hbytes : holdsBytes v = false) :
    Standard (print v ++ "\n") ↔ v.Finite := by
  have htext : (print v ++ "\n").toList = valueChars 0 v ++ ['\n'] := by
    rw [String.toList_append, print, String.toList_ofList]
    rfl
  have hend : Blank ['\n'] := blank_newline 0
  unfold Standard
  rw [htext]
  constructor
  · intro h
    exact (((tells_valueChars v 0).append hend.calm.tells).of_calm h.calm).1
  · intro h
    exact .item blank_nil (derives_valueChars h hbytes 0) hend

end Json

end Montage
