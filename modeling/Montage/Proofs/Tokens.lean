/-
# The tokens of a line

What a scan has found at a place in a line is told by three things (`Line.Scan`): the tokens
that are complete, whether the place is between quotes, and the token that was begun.  The
scan goes on from there (`Line.scan_append`), whatever follows

    a plain character           is added to the token that was begun
    white space                 ends it
    a quoted text               is added to it as it is
    white space between quotes  is added to it, too

with one exception: a backslash at the end, between quotes, would take a quote behind it into
the token.  So texts without quotes fall into words, a space behind closed quotes parts tokens
(`Line.tokenize_at_blanks`), and every list of arguments can be written (`Line.calls_written`).

A line is stripped before it is scanned.  This costs nothing but white space at its end, and
that is lost to a token only where a quote is not closed (`Line.calls_rest_unless_cut`).
-/
import Mathlib.Data.List.Basic
import Mathlib.Data.List.TakeWhile
import Montage.Command.Line

namespace Montage

namespace Text

variable {s t : List Char} {c : Char}

/-! ## Words -/

/-- The maximal runs of characters that are no white space. -/
def wordsOf (s : List Char) : List (List Char) := (s.splitOnP isBlank).filter (!·.isEmpty)

/-- The words of a text. -/
def words (s : String) : List String := (wordsOf s.toList).map String.ofList

/-- White space ends a word and belongs to none. -/
theorem wordsOf_append_blank (hc : isBlank c = true) :
    wordsOf (s ++ c :: t) = wordsOf s ++ wordsOf t := by
  rw [wordsOf, List.splitOnP_append_cons _ _ hc, List.filter_append, wordsOf, wordsOf]

/-- Characters that are no white space are one word. -/
theorem wordsOf_run (hne : s ≠ []) (h : ∀ c ∈ s, isBlank c = false) : wordsOf s = [s] := by
  rw [wordsOf, List.splitOnP_eq_singleton h]
  simp [hne]

/-! ## Stripping -/

/-- A text comes apart before the white space at its end. -/
theorem exists_trimmed (s : List Char) : ∃ body lost, s = body ++ lost ∧
    (∀ c ∈ body.getLast?, isBlank c = false) ∧ ∀ c ∈ lost, isBlank c = true := by
  refine ⟨(s.reverse.dropWhile isBlank).reverse, (s.reverse.takeWhile isBlank).reverse,
    ?_, fun c hc => ?_, fun c hc => ?_⟩
  · rw [← List.reverse_append, List.takeWhile_append_dropWhile, List.reverse_reverse]
  · rw [List.getLast?_reverse] at hc
    have hfirst := List.head?_dropWhile_not isBlank s.reverse
    rw [Option.mem_def.mp hc] at hfirst
    simpa using hfirst
  · exact List.mem_takeWhile_imp (List.mem_reverse.mp hc)

end Text

namespace Line

/-! ## Scans -/

/-- What a scan has found. -/
structure Scan where
  /-- The tokens that are complete. -/
  tokens : List String := []
  /-- Whether it stands between quotes. -/
  quoted : Bool
  /-- The token that was begun. -/
  word : Begun

/-- The scan with tokens before its own. -/
def Scan.behind (tokens : List String) (s : Scan) : Scan := { s with tokens := tokens ++ s.tokens }

/-- The tokens if nothing follows. -/
def Scan.finish (s : Scan) : List String := s.tokens ++ emit s.word []

/-- What is found in the characters by a scan that starts inside quotes or outside, with a begun
token. -/
def scan : (quoted : Bool) → (word : Begun) → List Char → Scan
  | quoted, word, [] => { quoted, word }
  | true, word, '\\' :: '"' :: r => scan true (add word '"') r
  | true, word, '"' :: r => scan false word r
  | true, word, c :: r => scan true (add word c) r
  | false, word, '"' :: r => scan true (some (word.getD [])) r
  | false, word, c :: r =>
    if Text.isBlank c then (scan false none r).behind (emit word [])
    else scan false (add word c) r

section Scan
variable {q : Bool} {w : Begun} {a b s : List Char} {c : Char}

theorem emit_eq_append (w : Begun) (xs : List String) : emit w xs = emit w [] ++ xs := by
  cases w <;> rfl

theorem Scan.finish_behind (tokens : List String) (s : Scan) :
    (s.behind tokens).finish = tokens ++ s.finish := List.append_assoc _ _ _

/-- The tokens of characters are what a scan of them finds. -/
theorem tokensFrom_eq_finish : tokensFrom q w a = (scan q w a).finish := by
  fun_induction scan q w a with
  | case1 => rfl
  | case2 word r ih => exact ih
  | case3 word r ih => exact ih
  | case4 word c r hescape hc ih => exact (tokensFrom.eq_4 _ _ _ hescape hc).trans ih
  | case5 word r ih => exact ih
  | case6 word c r hc hblank ih =>
      rw [tokensFrom.eq_6 _ _ _ hc, if_pos hblank, ih, emit_eq_append, Scan.finish_behind]
  | case7 word c r hc hblank ih => rw [tokensFrom.eq_6 _ _ _ hc, if_neg hblank, ih]

theorem tokenize_eq_finish (text : String) :
    tokenize text = (scan false none text.toList).finish := tokensFrom_eq_finish

/-! ### One character -/

theorem ne_quote_of_isBlank (hc : Text.isBlank c = true) : c ≠ '"' := by
  rintro rfl
  cases hc

/-- Between quotes a character is part of the token, unless it is a quote or takes one in. -/
theorem scan_quoted (hc : c ≠ '"') (hescape : c = '\\' → s.head? ≠ some '"') :
    scan true w (c :: s) = scan true (add w c) s := by
  refine scan.eq_4 _ _ _ ?_ hc
  rintro r hbackslash rfl
  exact hescape hbackslash rfl

theorem scan_blank (hc : Text.isBlank c = true) :
    scan false w (c :: s) = (scan false none s).behind (emit w []) :=
  (scan.eq_6 _ _ _ (ne_quote_of_isBlank hc)).trans (if_pos hc)

theorem scan_plain (hquote : c ≠ '"') (hc : Text.isBlank c = false) :
    scan false w (c :: s) = scan false (add w c) s :=
  (scan.eq_6 _ _ _ hquote).trans (if_neg (by simp [hc]))

/-! ### One text behind another -/

/-- A scan goes on from what it has found, unless this is between quotes and a quote follows: a
backslash before it may take it into the token. -/
theorem scan_append (h : (scan q w a).quoted = true → b.head? ≠ some '"') :
    scan q w (a ++ b) =
      (scan (scan q w a).quoted (scan q w a).word b).behind (scan q w a).tokens := by
  fun_induction scan q w a with
  | case1 => rfl
  | case2 word r ih => exact ih h
  | case3 word r ih => exact ih h
  | case4 word c r hescape hc ih =>
      rw [List.cons_append, scan_quoted hc, ih h]
      intro hbackslash
      cases r with
      | nil => exact h rfl
      | cons d r =>
          intro hd
          exact hescape r hbackslash (by simpa using hd)
  | case5 word r ih => exact ih h
  | case6 word c r hc hblank ih =>
      rw [List.cons_append, scan_blank hblank, ih h]
      simp only [Scan.behind, List.append_assoc]
  | case7 word c r hc hblank ih =>
      rw [List.cons_append, scan_plain hc (by simpa using hblank), ih h]

theorem isSome_word (hw : q = true → w.isSome = true) (h : (scan q w a).quoted = true) :
    (scan q w a).word.isSome = true := by
  fun_induction scan q w a with
  | case1 => exact hw h
  | case2 word r ih | case4 word c r hescape hc ih | case5 word r ih => exact ih (fun _ => rfl) h
  | case3 word r ih | case6 word c r hc hblank ih | case7 word c r hc hblank ih => exact ih nofun h

/-- Between quotes a token was begun. -/
theorem exists_word (h : (scan false none a).quoted = true) :
    ∃ cs, (scan false none a).word = some cs :=
  Option.isSome_iff_exists.mp (isSome_word Bool.noConfusion h)

/-- A token that was begun goes on. -/
theorem finish_some (q : Bool) (cs a : List Char) : ∃ t ts,
    (scan q (some cs) a).finish = String.ofList (cs.reverse ++ t) :: ts := by
  generalize hw : (some cs : Begun) = w
  fun_induction scan q w a generalizing cs with
  | case1 q w => exact ⟨[], [], by simp [← hw, Scan.finish, emit]⟩
  | case2 w r ih =>
      obtain ⟨t, ts, h⟩ := ih ('"' :: cs) (by simp [← hw, add])
      exact ⟨'"' :: t, ts, by simpa using h⟩
  | case3 w r ih => exact ih cs hw
  | case4 w c r hescape hc ih =>
      obtain ⟨t, ts, h⟩ := ih (c :: cs) (by simp [← hw, add])
      exact ⟨c :: t, ts, by simpa using h⟩
  | case5 w r ih => exact ih cs (by simp [← hw])
  | case6 w c r hc hblank ih =>
      exact ⟨[], (scan false none r).finish, by simp [← hw, Scan.finish_behind, emit]⟩
  | case7 w c r hc hblank ih =>
      obtain ⟨t, ts, h⟩ := ih (c :: cs) (by simp [← hw, add])
      exact ⟨c :: t, ts, by simpa using h⟩

/-- What begins without white space has a token. -/
theorem exists_finish (hfirst : ∃ c ∈ s.head?, Text.isBlank c = false) :
    ∃ name args, (scan false none s).finish = name :: args := by
  obtain ⟨c, hc, hblank⟩ := hfirst
  cases s with
  | nil => cases hc
  | cons d r =>
      cases hc
      by_cases hquote : c = '"'
      · obtain ⟨t, ts, h⟩ := finish_some true [] r
        rw [hquote]
        exact ⟨_, ts, h⟩
      · obtain ⟨t, ts, h⟩ := finish_some false [c] r
        rw [scan_plain hquote hblank]
        exact ⟨_, ts, h⟩

/-! ### Runs of characters -/

/-- Characters that are neither white space nor quotes are added to the token. -/
theorem scan_run (hne : a ≠ []) (ha : ∀ c ∈ a, Text.isBlank c = false ∧ c ≠ '"') :
    scan false w (a ++ s) = scan false (some (a.reverse ++ w.getD [])) s := by
  induction a generalizing w with
  | nil => exact absurd rfl hne
  | cons c r ih =>
      obtain ⟨⟨hblank, hquote⟩, hr⟩ := List.forall_mem_cons.mp ha
      rw [List.cons_append, scan_plain hquote hblank]
      cases r with
      | nil => rfl
      | cons d r =>
          rw [ih (List.cons_ne_nil d r) hr]
          simp [add]

/-- White space outside quotes ends the token. -/
theorem scan_blanks (hne : a ≠ []) (ha : ∀ c ∈ a, Text.isBlank c = true) :
    scan false w (a ++ b) = (scan false none b).behind (emit w []) := by
  induction a generalizing w with
  | nil => exact absurd rfl hne
  | cons c r ih =>
      rw [List.cons_append, scan_blank (ha c List.mem_cons_self)]
      cases r with
      | nil => rfl
      | cons d r =>
          rw [ih (List.cons_ne_nil d r) fun e he => ha e (List.mem_cons_of_mem c he)]
          rfl

/-- Between quotes all characters are added to the token, until a quote. -/
theorem scan_open {cs : List Char} (ha : ∀ c ∈ a, c ≠ '"') :
    scan true (some cs) a = { quoted := true, word := some (a.reverse ++ cs) } := by
  induction a generalizing cs with
  | nil => rfl
  | cons c r ih =>
      obtain ⟨hc, hr⟩ := List.forall_mem_cons.mp ha
      rw [scan_quoted hc fun _ hd => hr _ (List.mem_of_mem_head? hd) rfl, add, ih hr]
      simp

/-! ## Words and boundaries -/

theorem emit_eq_words (hw : ∀ cs ∈ w, cs ≠ [] ∧ ∀ c ∈ cs, Text.isBlank c = false) :
    emit w [] = (Text.wordsOf (w.getD []).reverse).map String.ofList := by
  cases w with
  | none => rfl
  | some cs =>
      obtain ⟨hne, hcs⟩ := hw cs rfl
      rw [Option.getD_some, Text.wordsOf_run (by simpa using hne) (by simpa using hcs)]
      rfl

/-- Outside quotes, and as long as there are none, the tokens are words.  The token that was begun is
the first part of the first word. -/
theorem finish_eq_words (hw : ∀ cs ∈ w, cs ≠ [] ∧ ∀ c ∈ cs, Text.isBlank c = false)
    (ha : ∀ c ∈ a, c ≠ '"') :
    (scan false w a).finish = (Text.wordsOf ((w.getD []).reverse ++ a)).map String.ofList := by
  induction a generalizing w with
  | nil => exact (emit_eq_words hw).trans (by rw [List.append_nil])
  | cons c r ih =>
      obtain ⟨hc, hr⟩ := List.forall_mem_cons.mp ha
      cases hblank : Text.isBlank c with
      | true =>
          rw [scan_blank hblank, Scan.finish_behind, ih (by simp) hr,
            Text.wordsOf_append_blank hblank, List.map_append, emit_eq_words hw]
          rfl
      | false =>
          rw [scan_plain hc hblank, ih _ hr]
          · simp [add]
          · rintro _ ⟨⟩
            refine ⟨List.cons_ne_nil _ _, List.forall_mem_cons.mpr ⟨hblank, fun d hd => ?_⟩⟩
            cases w with
            | none => cases hd
            | some cs => exact (hw cs rfl).2 d hd

end Scan

/-- A text without a double quote falls into its words, backslashes and all.  And a space behind a
text parts its tokens from those of what follows exactly if its scan ends outside quotes. -/
theorem tokenize_at_blanks :
    (∀ text : String, '"' ∉ text.toList → tokenize text = Text.words text) ∧
    ∀ a b : String, tokenize (a ++ " " ++ b) = tokenize a ++ tokenize b ↔
      (scan false none a.toList).quoted = false := by
  constructor
  case left =>
    intro text hquote
    rw [tokenize_eq_finish, finish_eq_words (by simp) fun c hc hcq => hquote (hcq ▸ hc)]
    rfl
  case right =>
    intro a b
    have hspace : (a ++ " " ++ b).toList = a.toList ++ ' ' :: b.toList := by
      simp only [String.toList_append, List.append_assoc]
      rfl
    have hjoin := scan_append (q := false) (w := none) (a := a.toList) (b := ' ' :: b.toList)
      fun _ => nofun
    simp only [tokenize_eq_finish, hspace, hjoin, Scan.finish_behind]
    cases hq : (scan false none a.toList).quoted with
    | false =>
        rw [scan_blank rfl, Scan.finish_behind, ← List.append_assoc]
        exact iff_of_true rfl rfl
    | true =>
        refine iff_of_false ?_ nofun
        -- the space goes into the token that was begun, which is the last one of the first text
        obtain ⟨cs, hcs⟩ := exists_word hq
        obtain ⟨t, ts, hfinish⟩ := finish_some true (' ' :: cs) b.toList
        rw [scan_quoted (by simp) (by simp), hcs, add, Option.getD_some, hfinish,
          Scan.finish.eq_1 (scan false none a.toList), hcs, List.append_assoc]
        intro h
        have hhead := congrArg String.length (List.cons.inj (List.append_cancel_left h)).1
        simp at hhead

/-- A word with a backslash in it, and two options parted by a space. -/
theorem blanks_part_tokens :
    tokenize "--text  a\\b" = ["--text", "a\\b"] ∧
      tokenize ("--text \"Hello World\"" ++ " " ++ "-c red") =
        ["--text", "Hello World", "-c", "red"] :=
  ⟨(tokenize_at_blanks.1 _ (by decide)).trans (by decide),
    ((tokenize_at_blanks.2 _ _).mpr (by decide)).trans (by decide)⟩

/-! ## Quoting -/

/-- A character between quotes.  A quote stands behind a backslash; a backslash stands outside,
between two quoted parts of the token. -/
def quoteChar (c : Char) : List Char :=
  if c = '"' then ['\\', '"'] else if c = '\\' then ['"', '\\', '"'] else [c]

/-- Characters between quotes. -/
def quoteChars (s : List Char) : List Char := '"' :: (s.flatMap quoteChar ++ ['"'])

/-- A text between quotes. -/
def quote (s : String) : String := String.ofList (quoteChars s.toList)

/-- White space, and an argument between quotes. -/
def argChars (arg : String × String) : List Char := arg.1.toList ++ quoteChars arg.2.toList

/-- The line that calls a command with quoted arguments, white space before each of them. -/
def written (name : String) (args : List (String × String)) : String :=
  "/" ++ name ++ String.join (args.map fun arg => arg.1 ++ quote arg.2)

section Quote
variable {w : Begun} {s t : List Char} {c : Char} {args : List (String × String)}

theorem scan_quoteChar : scan true w (quoteChar c ++ s) = scan true (add w c) s := by
  unfold quoteChar
  split_ifs with hquote hbackslash
  · rw [hquote]
    rfl
  · rw [hbackslash]
    rfl
  · exact scan_quoted hquote fun h => absurd h hbackslash

/-- A text between quotes is added to the token as it is. -/
theorem scan_quoteChars :
    scan false w (quoteChars t ++ s) = scan false (some (t.reverse ++ w.getD [])) s := by
  have hbody : ∀ cs, scan true (some cs) (t.flatMap quoteChar ++ '"' :: s) =
      scan false (some (t.reverse ++ cs)) s := by
    induction t with
    | nil => exact fun cs => rfl
    | cons c t ih =>
        intro cs
        rw [List.flatMap_cons, List.append_assoc, scan_quoteChar]
        exact (ih (c :: cs)).trans (by simp)
  rw [quoteChars, List.cons_append, List.append_assoc]
  exact hbody _

theorem toList_written (name : String) (args : List (String × String)) :
    (written name args).toList = '/' :: (name.toList ++ args.flatMap argChars) := by
  have hargs : argChars = fun arg => arg.1.toList ++ quoteChars arg.2.toList := rfl
  simp [written, quote, hargs, List.flatMap_map]

/-- The tokens of written arguments are the arguments. -/
theorem finish_args (hgaps : ∀ a ∈ args, a.1 ≠ "" ∧ ∀ c ∈ a.1.toList, Text.isBlank c = true) :
    (scan false w (args.flatMap argChars)).finish = emit w (args.map (·.2)) := by
  induction args generalizing w with
  | nil => rfl
  | cons a args ih =>
      obtain ⟨⟨hne, hblank⟩, hgaps⟩ := List.forall_mem_cons.mp hgaps
      have hword (xs : List String) : emit (some (a.2.toList.reverse ++ [])) xs = a.2 :: xs := by
        simp [emit]
      rw [List.flatMap_cons, argChars, List.append_assoc, scan_blanks (by simpa using hne) hblank,
        scan_quoteChars, Scan.finish_behind, ih hgaps, Option.getD_none, hword]
      exact (emit_eq_append w _).symm

/-- Written arguments end in a quote. -/
theorem getLast?_args (hs : ∀ c ∈ s.getLast?, Text.isBlank c = false) :
    ∀ c ∈ (s ++ args.flatMap argChars).getLast?, Text.isBlank c = false := by
  induction args generalizing s with
  | nil => simpa using hs
  | cons a args ih =>
      have hquoted : (s ++ argChars a).getLast? = some '"' := by
        rw [argChars, quoteChars, ← List.cons_append, ← List.append_assoc, ← List.append_assoc,
          List.getLast?_concat]
      rw [List.flatMap_cons, ← List.append_assoc]
      refine ih ?_
      rw [hquoted]
      rintro _ ⟨⟩
      rfl

end Quote

/-! ## Calls -/

section Call
variable {line : String} {gap body lost : List Char}

/-- A line calls what the tokens behind its slash say, the white space at both ends left out. -/
theorem call?_eq {name : String} {args : List String}
    (hline : line.toList = gap ++ ('/' :: body ++ lost)) (hgap : ∀ c ∈ gap, Text.isBlank c = true)
    (hfirst : ∃ c ∈ body.head?, Text.isBlank c = false)
    (hlast : ∀ c ∈ body.getLast?, Text.isBlank c = false)
    (hlost : ∀ c ∈ lost, Text.isBlank c = true)
    (htokens : (scan false none body).finish = name :: args) :
    call? line = some ⟨Text.lower name, args⟩ := by
  obtain ⟨c, hc, hblank⟩ := hfirst
  cases body with
  | nil => cases hc
  | cons d r =>
      cases hc
      have hstrip : Text.stripChars line.toList = '/' :: c :: r := by
        rw [hline]
        refine Text.stripChars_between hgap ?_ (by simpa using hlast) hlost
        rintro _ ⟨⟩
        rfl
      simp only [call?, hstrip, hblank, tokensFrom_eq_finish, htokens, Bool.false_eq_true, if_false]

/-- White space behind closed quotes changes no token. -/
theorem scan_trailing (hlost : ∀ c ∈ lost, Text.isBlank c = true)
    (hq : (scan false none body).quoted = false) :
    (scan false none (body ++ lost)).quoted = false ∧
      (scan false none (body ++ lost)).finish = (scan false none body).finish := by
  rw [scan_append (by rw [hq]; nofun), hq, Scan.finish_behind]
  cases lost with
  | nil => exact ⟨rfl, rfl⟩
  | cons c r =>
      rw [← List.append_nil (c :: r), scan_blanks (List.cons_ne_nil c r) hlost]
      refine ⟨rfl, ?_⟩
      rw [Scan.finish_behind, Scan.finish]
      exact congrArg _ (List.append_nil _)

/-- White space between quotes that are not closed is the end of the last token. -/
theorem scan_trailing_open (hlost : ∀ c ∈ lost, Text.isBlank c = true)
    (hq : (scan false none body).quoted = true) :
    (scan false none (body ++ lost)).quoted = true ∧ ∃ front word,
      (scan false none body).finish = front ++ [word] ∧
      (scan false none (body ++ lost)).finish = front ++ [word ++ String.ofList lost] := by
  have hquote : ∀ c ∈ lost, c ≠ '"' := fun c hc => ne_quote_of_isBlank (hlost c hc)
  obtain ⟨cs, hcs⟩ := exists_word hq
  rw [scan_append fun _ hd => hquote _ (List.mem_of_mem_head? hd) rfl, hq, hcs, scan_open hquote]
  refine ⟨rfl, (scan false none body).tokens, String.ofList cs.reverse, ?_, ?_⟩
  · rw [Scan.finish, hcs]
    rfl
  · rw [Scan.finish_behind]
    simp [Scan.finish, emit, String.ofList_append]

end Call

/-- Every list of arguments can be written.  Whatever they hold (white space, quotes, backslashes,
nothing), a line with each of them between quotes and behind white space calls the command with
them. -/
theorem calls_written (name : String) (args : List (String × String))
    (hname : name ≠ "" ∧ ∀ c ∈ name.toList, Text.isBlank c = false ∧ c ≠ '"')
    (hgaps : ∀ a ∈ args, a.1 ≠ "" ∧ ∀ c ∈ a.1.toList, Text.isBlank c = true) :
    call? (written name args) = some ⟨Text.lower name, args.map (·.2)⟩ := by
  obtain ⟨hne, hplain⟩ := hname
  have hne : name.toList ≠ [] := by simpa using hne
  obtain ⟨c, r, hcr⟩ := List.exists_cons_of_ne_nil hne
  have hline : (written name args).toList =
      [] ++ ('/' :: (name.toList ++ args.flatMap argChars) ++ []) := by
    rw [toList_written, List.append_nil, List.nil_append]
  refine call?_eq hline nofun ?first (getLast?_args fun d hd => ?last) nofun ?tokens
  case first => exact ⟨c, by rw [hcr]; rfl, (hplain c (hcr ▸ List.mem_cons_self)).1⟩
  case last => exact (hplain d (List.mem_of_getLast? hd)).1
  case tokens =>
    rw [scan_run hne hplain, finish_args hgaps]
    simp [emit]

/-- An option, a text that ends in a backslash behind a quote, and an empty text. -/
theorem awkward_texts_written :
    let args := [(" ", "--text"), ("\t\n", "say \"hi\\"), (" ", "")]
    written "New-Note" args = "/New-Note \"--text\"\t\n\"say \\\"hi\"\\\"\" \"\"" ∧
      call? (written "New-Note" args) = some ⟨"new-note", ["--text", "say \"hi\\", ""]⟩ :=
  ⟨by decide, (calls_written _ _ (by simp [Text.isBlank]) (by simp [Text.isBlank])).trans
    (by decide)⟩

/-- The text behind a slash ends between quotes, in white space. -/
def CutsQuote (rest : String) : Prop :=
  (scan false none rest.toList).quoted = true ∧
    ∃ c ∈ rest.toList.getLast?, Text.isBlank c = true

/-- A line with a text behind its slash that does not begin with white space calls what the tokens of
this text say, unless it ends between quotes and in white space.  Then the last token, and no other
one, lacks this white space. -/
theorem calls_rest_unless_cut (gap rest : String) (hgap : ∀ c ∈ gap.toList, Text.isBlank c = true)
    (hrest : ∃ c ∈ rest.toList.head?, Text.isBlank c = false) :
    (¬ CutsQuote rest → ∃ name args, tokenize rest = name :: args ∧
      call? (gap ++ "/" ++ rest) = some ⟨Text.lower name, args⟩) ∧
    (CutsQuote rest → ∃ front word lost name args,
      lost ≠ "" ∧ (∀ c ∈ lost.toList, Text.isBlank c = true) ∧
      tokenize rest = front ++ [word ++ lost] ∧ front ++ [word] = name :: args ∧
      call? (gap ++ "/" ++ rest) = some ⟨Text.lower name, args⟩) := by
  obtain ⟨body, lost, hsplit, hlast, hlost⟩ := Text.exists_trimmed rest.toList
  have hfirst : ∃ c ∈ body.head?, Text.isBlank c = false := by
    obtain ⟨c, hc, hblank⟩ := hrest
    rw [hsplit, List.head?_append, Option.mem_def, Option.or_eq_some_iff] at hc
    rcases hc with hc | ⟨-, hc⟩
    · exact ⟨c, hc, hblank⟩
    · rw [hlost c (List.mem_of_mem_head? hc)] at hblank
      cases hblank
  have hline : (gap ++ "/" ++ rest).toList = gap.toList ++ ('/' :: body ++ lost) := by
    simp [hsplit]
  obtain ⟨name, args, htokens⟩ := exists_finish hfirst
  have hcall := call?_eq hline hgap hfirst hlast hlost htokens
  rw [tokenize_eq_finish, CutsQuote, hsplit]
  cases hq : (scan false none body).quoted with
  | false =>
      obtain ⟨hclosed, hsame⟩ := scan_trailing hlost hq
      rw [hclosed, hsame]
      exact ⟨fun _ => ⟨name, args, htokens, hcall⟩, fun hcut => absurd hcut.1 nofun⟩
  | true =>
      obtain ⟨hopen, front, word, hbody, hrest⟩ := scan_trailing_open hlost hq
      rw [hopen, hrest]
      rcases lost.eq_nil_or_concat' with rfl | ⟨r, c, rfl⟩
      case inl =>
        rw [String.ofList_nil, String.append_empty, ← hbody]
        refine ⟨fun _ => ⟨name, args, htokens, hcall⟩, ?_⟩
        rintro ⟨-, d, hd, hblank⟩
        rw [List.append_nil] at hd
        exact absurd (hlast d hd) (by simp [hblank])
      case inr =>
        have hend : (body ++ (r ++ [c])).getLast? = some c := by
          rw [← List.append_assoc, List.getLast?_concat]
        refine ⟨fun hcut => ?_, fun _ => ?_⟩
        · exact absurd ⟨rfl, c, hend, hlost c List.mem_concat_self⟩ hcut
        · exact ⟨front, word, String.ofList (r ++ [c]), name, args, by simp, by simpa using hlost,
            rfl, hbody.symm.trans htokens, hcall⟩

/-- White space before the line and behind a quote that is closed. -/
theorem closed_quote_calls_rest : ∃ name args, tokenize "X \"a \"  " = name :: args ∧
    call? (" " ++ "/" ++ "X \"a \"  ") = some ⟨Text.lower name, args⟩ :=
  (calls_rest_unless_cut " " "X \"a \"  " (by simp [Text.isBlank]) ⟨'X', rfl, rfl⟩).1
    fun hcut => absurd hcut.1 (by decide)

/-- White space behind a quote that is not closed is part of the token, but not of the argument. -/
theorem unclosed_quote_is_cut : tokenize "x \"a " = ["x", "a "] ∧
    call? ("/" ++ "x \"a ") = some ⟨"x", ["a"]⟩ ∧
    ¬ ∃ name args, tokenize "x \"a " = name :: args ∧
      call? ("/" ++ "x \"a ") = some ⟨Text.lower name, args⟩ := by
  have htokens : tokenize "x \"a " = ["x", "a "] := by decide
  have hcall : call? ("/" ++ "x \"a ") = some ⟨"x", ["a"]⟩ := by decide
  refine ⟨htokens, hcall, ?_⟩
  rintro ⟨name, args, hrest, hline⟩
  rw [htokens] at hrest
  obtain ⟨-, rfl⟩ := List.cons.inj hrest
  have hargs : ["a"] = ["a "] := congrArg Call.args (Option.some.inj (hcall.symm.trans hline))
  exact absurd hargs (by decide)

end Line
end Montage
