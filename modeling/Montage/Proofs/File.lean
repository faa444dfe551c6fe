/-
# Files read and written again

A file holds a project as JSON.  Whatever file was read, the text that its project is
saved in is read as the same project and saved as the same text once more
(`load_fileText`): what is read is plain, a plain document is written and read back,
and its text holds no carriage return, so the line breaks stay as they are.
-/
import Montage.Document.File
import Montage.Proofs.Plain

namespace Montage

namespace Json

variable {c : Char} {v : Value}

/-! ## Line breaks -/

/-- No carriage return is among the characters. -/
def NoReturn (cs : List Char) : Prop := '\r' ∉ cs

instance (cs : List Char) : Decidable (NoReturn cs) := inferInstanceAs (Decidable ('\r' ∉ cs))

theorem NoReturn.append {as bs : List Char} (ha : NoReturn as) (hb : NoReturn bs) :
    NoReturn (as ++ bs) := by
  intro hmem
  rcases List.mem_append.mp hmem with hmem | hmem
  · exact ha hmem
  · exact hb hmem

theorem NoReturn.cons {as : List Char} (hc : c ≠ '\r') (ha : NoReturn as) : NoReturn (c :: as) := by
  intro hmem
  rcases List.mem_cons.mp hmem with heq | hmem
  · exact hc heq.symm
  · exact ha hmem

theorem noReturn_newline (level : Nat) : NoReturn (newline level) := by
  refine NoReturn.cons (by decide) fun hmem => ?_
  exact absurd (List.eq_of_mem_replicate hmem) (by decide)

theorem noReturn_hex {n : Nat} (hn : n < 0x20) : NoReturn (Text.hex 4 n) := by
  revert n
  decide

theorem noReturn_escapeChar (c : Char) : NoReturn (escapeChar c) := by
  rcases escape_cases c with ⟨hchars, -, -, hvisible⟩ | ⟨d, hchars, -, hescape⟩ |
    ⟨hchars, hcontrol⟩
  · rw [hchars]
    refine .cons ?_ nofun
    rintro rfl
    exact hvisible (by decide)
  · rw [hchars]
    refine .cons (by decide) (.cons ?_ nofun)
    rintro rfl
    cases hescape
  · rw [hchars]
    exact .cons (by decide) (.cons (by decide) (noReturn_hex hcontrol))

theorem noReturn_stringChars (s : String) : NoReturn (stringChars s) := by
  have hbody : NoReturn (s.toList.flatMap escapeChar) := by
    intro hmem
    obtain ⟨c, -, hc⟩ := List.mem_flatMap.mp hmem
    exact noReturn_escapeChar c hc
  exact .cons (by decide) (hbody.append (by decide))

theorem noReturn_numeric {cs : List Char} (h : ∀ c ∈ cs, isNumeric c = true) : NoReturn cs := by
  intro hmem
  exact absurd (h _ hmem) (by decide)

theorem noReturn_floatChars (x : Binary64) : NoReturn (floatChars x) := by
  cases x with
  | nan => decide
  | infinite n => cases n <;> decide
  | finite n m p hc =>
      obtain ⟨y, hy, hchars, -⟩ := exists_numeral n m p hc
      rw [hchars]
      exact (noReturn_numeric (isNumeric_signChars n)).append (noReturn_numeric hy.isNumeric.2)

theorem noReturn_itemChars {items : List Value} (level : Nat)
    (h : ∀ v ∈ items, NoReturn (valueChars level v)) : NoReturn (itemChars level items) := by
  induction items with
  | nil => exact nofun
  | cons v r ih =>
      have hrest := ih fun w hw => h w (List.mem_cons_of_mem _ hw)
      refine ((noReturn_newline level).append (h v List.mem_cons_self)).append ?_
      split
      · exact nofun
      · exact .cons (by decide) hrest

theorem noReturn_fieldChars {fields : List (String × Value)} (level : Nat)
    (h : ∀ f ∈ fields, NoReturn (valueChars level f.2)) : NoReturn (fieldChars level fields) := by
  induction fields with
  | nil => exact nofun
  | cons f r ih =>
      have hrest := ih fun g hg => h g (List.mem_cons_of_mem _ hg)
      have hcolon : NoReturn ": ".toList := by decide
      refine ((((noReturn_newline level).append (noReturn_stringChars f.1)).append hcolon).append
        (h f List.mem_cons_self)).append ?_
      split
      · exact nofun
      · exact .cons (by decide) hrest

/-- The text of a plain value holds no carriage return. -/
theorem noReturn_valueChars (h : v.Plain) (level : Nat) : NoReturn (valueChars level v) := by
  induction h generalizing level with
  | null => exact (by decide : NoReturn "null".toList)
  | bool b =>
      cases b with
      | true => exact (by decide : NoReturn "true".toList)
      | false => exact (by decide : NoReturn "false".toList)
  | int n =>
      rw [valueChars, toList_toString_int]
      exact (noReturn_numeric (isNumeric_signChars _)).append
        (noReturn_numeric (isNumeric_of_isDigit (isDigit_toDigits _)))
  | float x => exact noReturn_floatChars x
  | text s => exact noReturn_stringChars s
  | list _ ih =>
      rw [valueChars]
      split
      · decide
      · exact .append (.cons (by decide) ((noReturn_itemChars _ fun v hv => ih v hv _).append
          (noReturn_newline level))) (by decide)
  | object _ _ ih =>
      rw [valueChars]
      split
      · decide
      · exact .append (.cons (by decide) ((noReturn_fieldChars _ fun f hf => ih f hf _).append
          (noReturn_newline level))) (by decide)

end Json

/-! ## Files -/

namespace Document

open Json (NoReturn)

theorem lineFeeds_eq {cs : List Char} (h : NoReturn cs) : lineFeeds cs = cs := by
  induction cs with
  | nil => rfl
  | cons c cs ih =>
      have hc : c ≠ '\r' := by
        rintro rfl
        exact h List.mem_cons_self
      have hcs := ih fun hmem => h (List.mem_cons_of_mem c hmem)
      rw [lineFeeds]
      · rw [hcs]
      · rintro r rfl
        exact absurd rfl hc
      · rintro rfl
        exact hc rfl

/-- The text of a plain document is read as this document. -/
theorem read_print {v : Value} (h : v.Plain) :
    Json.read (String.ofList (lineFeeds (Json.print v ++ "\n").toList)) = .ok v := by
  have hchars : (Json.print v ++ "\n").toList = Json.valueChars 0 v ++ ['\n'] := by
    rw [String.toList_append, Json.print, String.toList_ofList]
    rfl
  have hfeeds : NoReturn (Json.valueChars 0 v ++ ['\n']) :=
    (Json.noReturn_valueChars h 0).append (by decide)
  rw [hchars, lineFeeds_eq hfeeds, Json.read, String.toList_ofList, Json.readChars_valueChars h]
  rfl

theorem parse_print {v : Value} (h : v.Plain) : parse (Json.print v ++ "\n") = project v := by
  rw [parse, read_print h]

/-- What was read from a file can be written, and what is written is read as the same project and
written in the same way again, as long as it is not too large. -/
theorem load_fileText {size : Nat} {text : String} {p : Project} (h : load size text = .ok p) :
    ∃ s, fileText p = .ok s ∧
      (s.utf8ByteSize ≤ maxFileSize →
        ∃ q, load s.utf8ByteSize s = .ok q ∧ q = p ∧ fileText q = .ok s) := by
  unfold load parse at h
  obtain ⟨-, h⟩ := guard_eq_ok.mp h
  split at h
  · rename_i v hread
    have hplain := Json.plain_of_read hread
    have hwritten := plain_ofProject h hplain
    have htext : fileText p = .ok (Json.print (ofProject p) ++ "\n") := by
      rw [fileText, Json.write_eq hwritten]
      rfl
    refine ⟨_, htext, fun hsize => ⟨p, ?_, rfl, htext⟩⟩
    rw [load, if_neg (Nat.not_lt.mpr hsize), parse_print hwritten]
    exact project_ofProject (project_storable h hplain.keyed)
  · cases h

/-- A file that is written differently from how the editor would: with other line breaks and
spaces, a key that comes twice, and numbers and a character in a longer form. -/
theorem loose_file_read_back :
    let text := "\x7b\"name\":\"\\u0041\\r\", \"notes\":[7], \"notes\":[],\r\n" ++
      "\"appState\":\x7b\"zoomLevel\":25e-2, \"mine\":[1e400, null]\x7d\x7d"
    let tidy := "\x7b\n  \"id\": \"\",\n  \"name\": \"A\\r\",\n  \"composition\": null,\n" ++
      "  \"notes\": [],\n  \"appState\": \x7b\n    \"selectedPageId\": null,\n" ++
      "    \"selectedElementId\": null,\n    \"currentTime\": 0,\n    \"zoomLevel\": 0.25,\n" ++
      "    \"mine\": [\n      Infinity,\n      null\n    ]\n  \x7d\n\x7d\n"
    ∃ p, load text.utf8ByteSize text = .ok p ∧ fileText p = .ok tidy ∧
      load tidy.utf8ByteSize tidy = .ok p := by
  intro text tidy
  have hsaved : ((load text.utf8ByteSize text).bind fileText).toOption = some tidy := by
    decide +kernel
  cases hp : load text.utf8ByteSize text with
  | error f =>
      rw [hp] at hsaved
      cases hsaved
  | ok p =>
      obtain ⟨s, hs, hagain⟩ := load_fileText hp
      have htidy : s = tidy := by
        rw [hp, Except.bind, hs] at hsaved
        exact Option.some.inj hsaved
      subst htidy
      obtain ⟨q, hq, rfl, -⟩ := hagain (by decide +kernel)
      exact ⟨q, rfl, hs, hq⟩

end Document

end Montage
