/-
# Paths and their texts

A path whose names are ones that a directory can hold is read back from its text, from
whatever directory (`resolve_text`).  So its text tells it from all others, and the check of a
path given as its text is the check of the path.

The suffix of a name is its end from the last dot on, unless the dot is its first character.
A name that ends in `.json` has this suffix or is nothing else (`endsIn_json_iff`), and a suffix
is `.json` in lower case if it is but for capitals (`lower_json_iff`):

    name       suffix
    a.json     .json
    a.JSON     .JSON
    .json
-/
import Mathlib.Data.List.Infix
import Mathlib.Data.List.TakeWhile
import Montage.Files.Check
import Montage.Proofs.DurationText
import Montage.Proofs.LowerCase

namespace Montage

namespace Path

/-- What a directory can call something in it. -/
structure IsName (s : String) : Prop where
  ne_empty : s ≠ ""
  ne_dot : s ≠ "."
  ne_dots : s ≠ ".."
  slash : '/' ∉ s.toList
  null : Char.ofNat 0 ∉ s.toList
  short : s.utf8ByteSize ≤ FileSystem.maxName

/-- Something can stand at the path. -/
def Named (p : Path) : Prop := ∀ n ∈ p.names, IsName n

variable {p q directory : Path} {n s : String} {names : List String} {c : Char}

instance : Decidable (IsName n) :=
  decidable_of_iff (n ≠ "" ∧ n ≠ "." ∧ n ≠ ".." ∧ '/' ∉ n.toList ∧ Char.ofNat 0 ∉ n.toList ∧
      n.utf8ByteSize ≤ FileSystem.maxName)
    ⟨fun ⟨he, hd, hdd, hs, hn, hl⟩ => ⟨he, hd, hdd, hs, hn, hl⟩,
      fun ⟨he, hd, hdd, hs, hn, hl⟩ => ⟨he, hd, hdd, hs, hn, hl⟩⟩

instance : Decidable p.Named := inferInstanceAs (Decidable (∀ n ∈ p.names, IsName n))

/-! ## Reading a text -/

theorem splitSlashes_eq (cs : List Char) : splitSlashes cs = cs.splitOn '/' := by
  induction cs with
  | nil => rfl
  | cons c r ih =>
      unfold splitSlashes
      rw [ih]
      unfold List.splitOn
      rw [List.splitOnP_cons_eq_if_modifyHead]
      cases hr : r.splitOnP (· == '/') with
      | nil => exact absurd hr (List.splitOnP_ne_nil _ _)
      | cons part parts => rfl

theorem toList_text : p.text.toList = '/' :: ['/'].intercalate (p.names.map String.toList) := by
  unfold text
  rw [String.toList_append, String.toList_intercalate]
  rfl

theorem isAbsolute_text : isAbsolute p.text = true := by
  unfold isAbsolute
  rw [toList_text]
  rfl

theorem namesIn_text (hp : p.Named) : namesIn p.text = p.names := by
  have hkept : (p.names.filter fun n => n != "" && n != ".") = p.names := by
    rw [List.filter_eq_self]
    intro n hn
    simp [(hp n hn).ne_empty, (hp n hn).ne_dot]
  unfold namesIn
  rw [splitSlashes_eq, toList_text]
  cases hnames : p.names with
  | nil => rfl
  | cons n r =>
      -- before the first slash stands the empty name, which is dropped
      have hslash : '/' :: ['/'].intercalate ((n :: r).map String.toList) =
          ['/'].intercalate ([] :: (n :: r).map String.toList) := by
        rw [List.map_cons, List.intercalate_cons_cons]
        rfl
      have hparts : ∀ part ∈ [] :: (n :: r).map String.toList, '/' ∉ part := by
        rw [← hnames, List.forall_mem_cons, List.forall_mem_map]
        exact ⟨List.not_mem_nil, fun m hm => (hp m hm).slash⟩
      rw [hslash, List.splitOn_intercalate '/' hparts (List.cons_ne_nil _ _), ← hnames,
        List.map_cons, List.map_map, List.filter_cons]
      simpa [Function.comp_def] using hkept

theorem foldl_enter (h : ".." ∉ names) (here : List String) :
    names.foldl enter here = here ++ names := by
  induction names generalizing here with
  | nil => rw [List.append_nil]; rfl
  | cons n r ih =>
      obtain ⟨hn, hr⟩ := List.ne_and_not_mem_of_not_mem_cons h
      have hstep : enter here n = here ++ [n] := if_neg (by simpa using hn.symm)
      rw [List.foldl_cons, hstep, ih hr, List.append_assoc]
      rfl

/-- The text of a path stands for it in every directory. -/
theorem resolve_text (hp : p.Named) (directory : Path) : directory.resolve p.text = p := by
  have hdots : ".." ∉ p.names := fun h => (hp _ h).ne_dots rfl
  unfold resolve
  rw [namesIn_text hp, isAbsolute_text, if_pos rfl, foldl_enter hdots, List.nil_append]

theorem text_inj (hp : p.Named) (hq : q.Named) (h : p.text = q.text) : p = q := by
  rw [← resolve_text hp ⟨[]⟩, h, resolve_text hq]

/-- Two dots are never entered. -/
theorem dots_not_mem_foldl {here : List String} (h : ".." ∉ here) :
    ".." ∉ names.foldl enter here := by
  induction names generalizing here with
  | nil => exact h
  | cons n r ih =>
      refine ih ?_
      unfold enter
      split
      · exact fun hmem => h (List.mem_of_mem_dropLast hmem)
      · rename_i hn
        intro hmem
        rcases List.mem_append.mp hmem with hmem | hmem
        · exact h hmem
        · exact hn (by simpa using (List.mem_singleton.mp hmem).symm)

theorem dots_not_mem_resolve (h : ".." ∉ directory.names) :
    ".." ∉ (directory.resolve s).names := by
  refine dots_not_mem_foldl ?_
  split
  · exact List.not_mem_nil
  · exact h

theorem mem_text (h : c ∈ p.text.toList) : c = '/' ∨ ∃ n ∈ p.names, c ∈ n.toList := by
  rw [toList_text] at h
  rcases List.mem_cons.mp h with rfl | h
  · exact .inl rfl
  generalize p.names = names at h ⊢
  induction names with
  | nil => cases h
  | cons n r ih =>
      cases r with
      | nil => exact .inr ⟨n, List.mem_singleton_self n, by simpa using h⟩
      | cons m r =>
          rw [List.map_cons, List.map_cons, List.intercalate_cons_cons, List.append_assoc,
            List.mem_append, List.mem_append, List.mem_singleton] at h
          rcases h with h | h | h
          · exact .inr ⟨n, List.mem_cons_self, h⟩
          · exact .inl h
          · exact (ih h).imp_right fun ⟨k, hk, hc⟩ => ⟨k, List.mem_cons_of_mem _ hk, hc⟩

theorem pathText_text (hp : p.Named) (what : String) :
    Files.pathText what (.text p.text) = .ok p.text := by
  refine if_neg fun h => ?_
  have hnull : Char.ofNat 0 ∈ p.text.toList :=
    (List.singleton_infix_iff _ _).mp (Text.occursIn_iff.mp h)
  rcases mem_text hnull with hslash | ⟨n, hn, hmem⟩
  · exact absurd hslash (by decide)
  · exact (hp n hn).null hmem

/-! ## Suffixes -/

theorem ne_dot_of_mem_reverse {cs : List Char} (h : '.' ∉ cs) :
    ∀ c ∈ cs.reverse, (c != '.') = true := by
  intro c hc
  rw [bne_iff_ne]
  rintro rfl
  exact h (List.mem_reverse.mp hc)

/-- What the last dot parts, unless it is the first or the last character. -/
theorem suffix_of_last_dot {stem ending : List Char} (h : n.toList = stem ++ '.' :: ending)
    (hdot : '.' ∉ ending) : (splitName n).2 =
      if stem = [] ∨ ending = [] then "" else String.ofList ('.' :: ending) := by
  have hreverse : n.toList.reverse = ending.reverse ++ '.' :: stem.reverse := by
    rw [h, List.reverse_append, List.reverse_cons, List.append_assoc]
    rfl
  have hending : n.toList.reverse.takeWhile (· != '.') = ending.reverse := by
    rw [hreverse, List.takeWhile_append_of_pos (ne_dot_of_mem_reverse hdot),
      List.takeWhile_cons_of_neg (by decide), List.append_nil]
  have hstem : (n.toList.reverse.drop (ending.reverse.length + 1)).reverse = stem := by
    rw [hreverse, List.drop_length_add_append, List.drop_one, List.tail_cons, List.reverse_reverse]
  unfold splitName
  simp only [hending, hstem, Bool.or_eq_true, List.isEmpty_iff, List.reverse_eq_nil_iff,
    List.reverse_reverse]
  split <;> rfl

theorem splitName_of_no_dot (h : '.' ∉ n.toList) : splitName n = (n, "") := by
  have hending : n.toList.reverse.takeWhile (· != '.') = n.toList.reverse := by
    exact List.takeWhile_eq_self_iff.mpr (ne_dot_of_mem_reverse h)
  unfold splitName
  simp [hending]

/-- A name ends in its suffix. -/
theorem splitName_suffix (n : String) : (splitName n).2.toList <:+ n.toList := by
  by_cases hdot : '.' ∈ n.toList
  · obtain ⟨after, before, hreverse, hlast⟩ :=
      List.eq_append_cons_of_mem (List.mem_reverse.mpr hdot)
    have hparts : n.toList = before.reverse ++ '.' :: after.reverse := by
      rw [← List.reverse_reverse n.toList, hreverse, List.reverse_append, List.reverse_cons,
        List.append_assoc]
      rfl
    rw [suffix_of_last_dot hparts fun h => hlast (List.mem_reverse.mp h)]
    split
    · exact List.nil_suffix
    · rw [String.toList_ofList]
      exact ⟨_, hparts.symm⟩
  · rw [splitName_of_no_dot hdot]
    exact List.nil_suffix

/-- What ends in `.json` has it as its suffix or is nothing else. -/
theorem endsIn_json_iff :
    ".json".toList <:+ n.toList ↔ (splitName n).2 = ".json" ∨ n = ".json" := by
  constructor
  · rintro ⟨stem, h⟩
    have hparts : n.toList = stem ++ '.' :: "json".toList := h.symm
    have hsuffix := suffix_of_last_dot hparts (by decide)
    by_cases hstem : stem = []
    · subst hstem
      exact .inr (String.toList_inj.mp h.symm)
    · rw [if_neg (by simp [hstem])] at hsuffix
      exact .inl hsuffix
  · rintro (hsuffix | rfl)
    · exact hsuffix ▸ splitName_suffix n
    · exact List.suffix_refl _

end Path

theorem Files.isProjectFile_iff {p : Path} :
    isProjectFile p = true ↔ p.suffix = ".json" ∨ p.name = ".json" := by
  unfold isProjectFile projectSuffixes
  rw [List.any_cons, List.any_nil, Bool.or_false, List.isSuffixOf_iff_suffix,
    Path.endsIn_json_iff]
  rfl

/-! ## A suffix in lower case -/

namespace Text

variable {c : Char} {s : String}

theorem toNat_ofNat {n : Nat} (h : (Char.ofNat n).toNat ≠ 0) : (Char.ofNat n).toNat = n := by
  by_cases hn : n.isValidChar
  · unfold Char.ofNat
    rw [dif_pos hn]
    rfl
  · unfold Char.ofNat at h
    rw [dif_neg hn] at h
    exact absurd rfl h

theorem json_ascii (hc : c ∈ ".json".toList) : 0 < c.toNat ∧ c.toNat < 128 := by
  have hcodes : ∀ n ∈ ".json".toList.map Char.toNat, 0 < n ∧ n < 128 := by decide
  exact hcodes _ (List.mem_map_of_mem hc)

/-- Only ASCII is mapped to the characters of `.json`. -/
theorem lowerRuns_json : ∀ r ∈ lowerRuns, ∀ n ∈ ".json".toList.map Char.toNat,
    (r.first : Int) ≤ n - r.shift → (n : Int) - r.shift ≤ r.last → (n : Int) - r.shift < 128 := by
  decide +kernel

theorem apply_not_mem_json (hc : 128 ≤ c.toNat) :
    CaseRun.apply lowerRuns c ∉ ".json".toList := by
  intro hmem
  unfold CaseRun.apply at hmem
  dsimp only at hmem
  split at hmem
  · rename_i r hfind
    obtain ⟨hpositive, hsmall⟩ := json_ascii hmem
    have hcode := toNat_ofNat (Nat.pos_iff_ne_zero.mp hpositive)
    have hrun := List.find?_some hfind
    simp only [Bool.and_eq_true, decide_eq_true_eq] at hrun
    have hout := lowerRuns_json r (List.mem_of_find?_eq_some hfind) _ (List.mem_map_of_mem hmem)
    omega
  · have hsmall := (json_ascii hmem).2
    omega

/-- The lower case of what is not ASCII does not begin with a character of `.json`. -/
theorem exists_lowerAt (hc : 128 ≤ c.toNat) (before after : List Char) :
    ∃ d rest, lowerAt before c after = d :: rest ∧ d ∉ ".json".toList := by
  unfold lowerAt
  split
  · split
    · exact ⟨_, _, rfl, by decide⟩
    · exact ⟨_, _, rfl, by decide⟩
  · split
    · exact ⟨_, _, rfl, by decide⟩
    · rw [if_neg (Nat.not_lt.mpr hc)]
      exact ⟨_, _, rfl, apply_not_mem_json hc⟩

theorem lowerAt_ascii (hc : c.toNat < 128) (before after : List Char) :
    lowerAt before c after = [c.toLower] := by
  have hne (d : Char) (hd : 128 ≤ d.toNat) : (c == d) = false := by
    rw [beq_eq_false_iff_ne]
    rintro rfl
    omega
  unfold lowerAt
  rw [hne 'Σ' (by decide), hne 'İ' (by decide), if_pos hc]
  rfl

theorem toLower_of_ge (hc : 128 ≤ c.toNat) : c.toLower = c := by
  rw [← Char.toNat_inj, Duration.toNat_toLower, if_neg (by omega)]

theorem lowerFrom_json_iff {cs ds : List Char} (hds : ∀ d ∈ ds, d ∈ ".json".toList)
    (before : List Char) : lowerFrom before cs = ds ↔ cs.map Char.toLower = ds := by
  induction cs generalizing before ds with
  | nil => rfl
  | cons c r ih =>
      rw [lowerFrom, List.map_cons]
      by_cases hc : c.toNat < 128
      · rw [lowerAt_ascii hc]
        cases ds with
        | nil => simp
        | cons d ds =>
            obtain ⟨-, hds⟩ := List.forall_mem_cons.mp hds
            rw [List.singleton_append, List.cons.injEq, List.cons.injEq, ih hds]
      · -- on neither side the first character is one of `.json`
        have hc := Nat.le_of_not_lt hc
        obtain ⟨d, rest, hlower, hd⟩ := exists_lowerAt hc before r
        rw [hlower, toLower_of_ge hc]
        constructor
        · rintro rfl
          exact absurd (hds d List.mem_cons_self) hd
        · rintro rfl
          exact absurd (json_ascii (hds c List.mem_cons_self)).2 (Nat.not_lt.mpr hc)

/-- A text is `.json` in lower case if it is but for capitals from `A` to `Z`. -/
theorem lower_json_iff : lower s = ".json" ↔ s.toList.map Char.toLower = ".json".toList := by
  rw [← lowerFrom_json_iff (fun _ => id) [], ← String.toList_inj]
  unfold lower
  rw [String.toList_ofList]

end Text

end Montage
