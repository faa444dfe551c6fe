/-
# The number of draws for a fresh id

A drawn id that is taken is dropped and the next one drawn, and nothing in the program says when
this ends.  What ends it is counting (`fresh_stops`):

    the draws so far   n, n + 1, …, n + k - 1    all of them taken
    their ids          k different ones          no suffix came twice
    the taken ids      at least k                so k is bounded by their number

Two ids of one word with different suffixes are different whatever the clock showed, for the
time is written in digits, and the first dash behind it ends it (`candidate_suffix`).  It is
enough that the source goes on without repetition for more draws than there are different ids;
one that counts in letters and digits does so for `36 ^ 9` draws (`lettered_unrepeated`).
-/
import Mathlib.Data.List.Perm.Subperm
import Montage.Proofs.Digits
import Montage.Proofs.Ids

namespace Montage

/-! ## Ids and their suffixes -/

/-- What stands before the first of two equal characters is told by the whole. -/
theorem cons_inj_of_not_mem {c : Char} {as bs ss ts : List Char} (ha : c ∉ as) (hb : c ∉ bs)
    (h : as ++ c :: ss = bs ++ c :: ts) : ss = ts := by
  have hbehind (run rest : List Char) (hrun : c ∉ run) :
      (run ++ c :: rest).dropWhile (· != c) = c :: rest :=
    dropWhile_run (fun d hd => by simpa using ne_of_mem_of_not_mem hd hrun) (by simp)
  have hdrop := congrArg (List.dropWhile (· != c)) h
  rw [hbehind as ss ha, hbehind bs ts hb] at hdrop
  exact (List.cons.inj hdrop).2

namespace IdSource

variable {source : IdSource} {word : String} {taken : List Value} {i j k n total : Nat}

theorem dash_not_mem (m : Nat) : '-' ∉ (toString m).toList := by
  rw [Nat.toString_eq_repr, Nat.toList_repr]
  intro hmem
  exact absurd (isDigit_toDigits m _ hmem) (by decide)

/-- The suffix of a draw is told by its id. -/
theorem candidate_suffix (h : source.candidate word i = source.candidate word j) :
    source.suffix i = source.suffix j := by
  have hchars := congrArg String.toList h
  simp only [candidate, String.toList_append, List.append_assoc] at hchars
  have hbehind := List.append_cancel_left (List.append_cancel_left hchars)
  exact String.toList_inj.mp (cons_inj_of_not_mem (dash_not_mem _) (dash_not_mem _) hbehind)

/-- Of the `total` draws from the `n`-th on, which the source has, no two have the same suffix. -/
structure Unrepeated (source : IdSource) (n total : Nat) : Prop where
  draws : n + total ≤ source.draws
  suffix_ne : ∀ i j, n ≤ i → i < j → j < n + total → source.suffix i ≠ source.suffix j

/-! ## Counting the taken ids -/

/-- The number of different texts among the ids. -/
def textCount (ids : List Value) : Nat := (ids.filterMap Value.text?).dedup.length

theorem mem_texts {ids : List Value} {s : String} (h : .text s ∈ ids) :
    s ∈ (ids.filterMap Value.text?).dedup :=
  List.mem_dedup.mpr (List.mem_filterMap.mpr ⟨_, h, rfl⟩)

/-- The ids of draws that were all dropped are as many different texts among the taken ids. -/
theorem le_textCount (hsource : source.Unrepeated n total) (hk : k ≤ total)
    (htaken : ∀ i < k, .text (source.candidate word (n + i)) ∈ taken) : k ≤ textCount taken := by
  have hnodup : ((List.range k).map fun i => source.candidate word (n + i)).Nodup := by
    rw [List.nodup_map_iff_inj_on List.nodup_range]
    intro i hi j hj hsame
    rw [List.mem_range] at hi hj
    have hsuffix := candidate_suffix hsame
    rcases Nat.lt_trichotomy i j with hlt | heq | hgt
    · exact absurd hsuffix (hsource.suffix_ne _ _ (by omega) (by omega) (by omega))
    · exact heq
    · exact absurd hsuffix.symm (hsource.suffix_ne _ _ (by omega) (by omega) (by omega))
  have hsub : (List.range k).map (fun i => source.candidate word (n + i)) ⊆
      (taken.filterMap Value.text?).dedup := by
    intro s hs
    obtain ⟨i, hi, rfl⟩ := List.mem_map.mp hs
    exact mem_texts (htaken i (List.mem_range.mp hi))
  have hlength := (hnodup.subperm hsub).length_le
  rwa [List.length_map, List.length_range] at hlength

/-- There is a first draw that is not dropped, and it comes before the taken ids run out. -/
theorem exists_free (hsource : source.Unrepeated n total) (hfew : textCount taken < total)
    (word : String) : ∃ k ≤ textCount taken,
      .text (source.candidate word (n + k)) ∉ taken ∧
        ∀ i < k, .text (source.candidate word (n + i)) ∈ taken := by
  have hex : ∃ k, .text (source.candidate word (n + k)) ∉ taken := by
    by_contra hnone
    push Not at hnone
    have hle := le_textCount hsource (Nat.succ_le_of_lt hfew) fun i _ => hnone i
    omega
  classical
  have hmin : ∀ i < Nat.find hex, .text (source.candidate word (n + i)) ∈ taken :=
    fun i hi => not_not.mp (Nat.find_min hex hi)
  refine ⟨Nat.find hex, ?_, Nat.find_spec hex, hmin⟩
  by_contra hmany
  have hle := le_textCount hsource (Nat.succ_le_of_lt hfew)
    fun i hi => hmin i (lt_of_lt_of_le hi (Nat.lt_of_not_le hmany))
  omega

/-! ## The search -/

/-- The search drops what is taken and ends with the first draw that is not. -/
theorem search_eq {left : Nat} (hk : k < left)
    (htaken : ∀ i < k, .text (source.candidate word (n + i)) ∈ taken)
    (hfree : .text (source.candidate word (n + k)) ∉ taken) :
    source.search word taken left n = (.ok (source.candidate word (n + k)), n + k + 1) := by
  have hany (i : Nat) : taken.any (·.isText (source.candidate word i)) = true ↔
      .text (source.candidate word i) ∈ taken := by
    simp [List.any_eq_true, Value.isText_iff]
  induction left generalizing n k with
  | zero => exact absurd hk (Nat.not_lt_zero k)
  | succ left ih =>
      rw [search]
      cases k with
      | zero => exact if_neg (mt (hany n).mp hfree)
      | succ k =>
          have hplace (i : Nat) : n + 1 + i = n + (i + 1) := by omega
          have hrest := ih (n := n + 1) (Nat.lt_of_succ_lt_succ hk)
            (fun i hi => hplace i ▸ htaken (i + 1) (Nat.succ_lt_succ hi)) (hplace k ▸ hfree)
          rw [if_pos ((hany n).mpr (htaken 0 (Nat.succ_pos k))), hrest, hplace k]

/-- A source that does not repeat itself within more draws than there are different taken ids
gives an id that is not taken, after at most one draw more than these are. -/
theorem fresh_stops (hsource : source.Unrepeated n total) (hfew : textCount taken < total)
    (word : String) : ∃ k ≤ textCount taken,
      source.fresh word taken n = (.ok (source.candidate word (n + k)), n + (k + 1)) ∧
        .text (source.candidate word (n + k)) ∉ taken := by
  obtain ⟨k, hk, hfree, htaken⟩ := exists_free hsource hfew word
  have hdraws := hsource.draws
  exact ⟨k, hk, search_eq (by omega) htaken hfree, hfree⟩

/-! ## A source that counts -/

/-- The letters and digits of suffixes. -/
def alphabet : List Char := "abcdefghijklmnopqrstuvwxyz0123456789".toList

/-- The last `k` places of a number, the first one first. -/
def spell : (k : Nat) → (n : Nat) → List Char
  | 0, _ => []
  | k + 1, n => spell k (n / 36) ++ [alphabet.getD (n % 36) 'a']

theorem spell_inj {m : Nat} (hm : m < 36 ^ k) (hn : n < 36 ^ k) (h : spell k m = spell k n) :
    m = n := by
  induction k generalizing m n with
  | zero => omega
  | succ k ih =>
      obtain ⟨hfront, hlast⟩ := List.append_inj' h rfl
      have hquotient : m / 36 = n / 36 :=
        ih (Nat.div_lt_of_lt_mul (by rwa [Nat.pow_succ'] at hm))
          (Nat.div_lt_of_lt_mul (by rwa [Nat.pow_succ'] at hn)) hfront
      have halphabet : ∀ a < 36, ∀ b < 36, alphabet.getD a 'a' = alphabet.getD b 'a' → a = b := by
        decide
      have hremainder : m % 36 = n % 36 :=
        halphabet _ (Nat.mod_lt m (by decide)) _ (Nat.mod_lt n (by decide)) (List.cons.inj hlast).1
      omega

/-- A source that counts its draws in nine letters and digits. -/
def lettered : IdSource where
  millis := 0
  suffix n := String.ofList (spell 9 n)
  draws := 36 ^ 9
  now := ""

theorem lettered_unrepeated : lettered.Unrepeated 0 (36 ^ 9) where
  draws := Nat.le_of_eq (Nat.zero_add _)
  suffix_ne i j _ hij hj := by
    intro hsame
    have hchars := String.ofList_injective hsame
    have heq := spell_inj (k := 9) (by omega) (by omega) hchars
    omega

/-- The first two ids are taken, one of them twice, and the third draw gives a fresh one. -/
theorem lettered_stops :
    let taken := [lettered.candidate "page" 0, lettered.candidate "page" 1,
      lettered.candidate "page" 0].map Value.text
    lettered.Unrepeated 0 (36 ^ 9) ∧ textCount taken = 2 ∧ textCount taken < 36 ^ 9 ∧
      ∃ k ≤ textCount taken,
        lettered.fresh "page" taken 0 = (.ok (lettered.candidate "page" (0 + k)), 0 + (k + 1)) ∧
          .text (lettered.candidate "page" (0 + k)) ∉ taken := by
  intro taken
  have htwo : textCount taken = 2 := by decide +kernel
  have hfew : textCount taken < 36 ^ 9 := by omega
  exact ⟨lettered_unrepeated, htwo, hfew, fresh_stops lettered_unrepeated hfew "page"⟩

end IdSource

end Montage
