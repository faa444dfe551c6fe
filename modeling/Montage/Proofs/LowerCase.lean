/-
# The lower case of a part of a text

A text holds each of its parts.  Its lower case need not hold theirs: what becomes of a
character does not depend on those around it, but `Σ` becomes `ς` where it ends a word, and a
part may end where the word goes on.

    text    in lower case   part   in lower case
    ΑΣ Α    ας α            ΑΣ     ας              found
    ΑΣΑ     ασα             ΑΣ     ας              not found

So the lower case of a part is found if each `Σ` ends a word in the part exactly if it does in
the text (`contains_lower`).  This is so if the part has no `Σ`, or consists of whole words.
-/
import Mathlib.Data.List.Infix
import Montage.Text.CaseMap
import Montage.Text.Infix

namespace Montage.Text

variable {before before' after after' front part back : List Char} {c : Char}

theorem occursIn_iff {needle s : List Char} : occursIn needle s = true ↔ needle <:+: s := by
  induction s with
  | nil => rw [occursIn, List.isEmpty_iff, List.infix_nil]
  | cons c r ih =>
      rw [occursIn, Bool.or_eq_true, List.isPrefixOf_iff_prefix, ih, List.infix_cons_iff]

/-! ## Ends of words -/

/-- A `Σ` between these characters, of which those before it stand nearest first, ends a word. -/
def EndsWord (before after : List Char) : Prop :=
  (nextIsCased before && !nextIsCased after) = true

/-- Each `Σ` of the part ends a word in it exactly if it does so between `front` and `back`. -/
def SigmasAgree (front part back : List Char) : Prop :=
  ∀ u v, part = u ++ 'Σ' :: v →
    (EndsWord u.reverse v ↔ EndsWord (u.reverse ++ front.reverse) (v ++ back))

theorem sigmasAgree_of_not_mem (h : 'Σ' ∉ part) : SigmasAgree front part back := by
  rintro u v rfl
  exact absurd (List.mem_append_right u List.mem_cons_self) h

/-- Behind a text the next character with a case is one of the text, unless it has none. -/
theorem nextIsCased_append (h : nextIsCased back = false) (v : List Char) :
    nextIsCased (v ++ back) = nextIsCased v := by
  unfold nextIsCased at *
  rw [List.dropWhile_append]
  cases v.dropWhile isCaseIgnorable with
  | nil => exact h
  | cons c r => rfl

/-- Whole words: no character with a case is next to the part on either side. -/
theorem sigmasAgree_of_words (hfront : nextIsCased front.reverse = false)
    (hback : nextIsCased back = false) : SigmasAgree front part back := by
  intro u v _
  unfold EndsWord
  rw [nextIsCased_append hfront, nextIsCased_append hback]

/-! ## Lower case along a text -/

/-- What becomes of a character depends on those around it only if it is a `Σ`, and then only on
whether it ends a word. -/
theorem lowerAt_congr (h : c = 'Σ' → (EndsWord before after ↔ EndsWord before' after')) :
    lowerAt before c after = lowerAt before' c after' := by
  unfold lowerAt
  by_cases hc : c = 'Σ'
  · have hends := Bool.eq_iff_iff.mpr (h hc)
    rw [hends]
  · have hother : (c == 'Σ') = false := by simpa using hc
    simp only [hother, Bool.false_eq_true, if_false]

/-- What is before a place stays before it. -/
theorem exists_lowerFrom_append (before front rest : List Char) : ∃ lowered,
    lowerFrom before (front ++ rest) = lowered ++ lowerFrom (front.reverse ++ before) rest := by
  induction front generalizing before with
  | nil => exact ⟨[], rfl⟩
  | cons c r ih =>
      obtain ⟨lowered, h⟩ := ih (c :: before)
      refine ⟨lowerAt before c (r ++ rest) ++ lowered, ?_⟩
      rw [List.cons_append, lowerFrom, h, List.append_assoc, List.reverse_cons, List.append_assoc,
        List.singleton_append]

/-- A part has the same lower case behind other characters and before others, if each `Σ` in it
still ends a word or still does not. -/
theorem lowerFrom_append (h : ∀ u v, part = u ++ 'Σ' :: v →
      (EndsWord (u.reverse ++ before) v ↔ EndsWord (u.reverse ++ before') (v ++ back))) :
    lowerFrom before' (part ++ back) =
      lowerFrom before part ++ lowerFrom (part.reverse ++ before') back := by
  induction part generalizing before before' with
  | nil => rfl
  | cons c r ih =>
      -- the first character is before the others, so the condition on these is that of `c :: r`
      have hfirst : lowerAt before' c (r ++ back) = lowerAt before c r :=
        lowerAt_congr fun hc => (h [] r (hc ▸ rfl)).symm
      have hrest : lowerFrom (c :: before') (r ++ back) =
          lowerFrom (c :: before) r ++ lowerFrom (r.reverse ++ c :: before') back := by
        refine ih fun u v hr => ?_
        have hbehind := h (c :: u) v (by rw [hr, List.cons_append])
        simpa only [List.reverse_cons, List.append_assoc, List.singleton_append] using hbehind
      rw [List.cons_append, lowerFrom, lowerFrom, hfirst, hrest, List.reverse_cons]
      simp only [List.append_assoc, List.singleton_append]

/-- The lower case of a text holds that of a part in which each `Σ` ends a word exactly if it does
in the text. -/
theorem contains_lower {s q : String} (hs : s.toList = front ++ (q.toList ++ back))
    (hagree : SigmasAgree front q.toList back) : contains (lower s) (lower q) = true := by
  obtain ⟨lowered, hfront⟩ := exists_lowerFrom_append [] front (q.toList ++ back)
  have hpart : lowerFrom front.reverse (q.toList ++ back) =
      lowerFrom [] q.toList ++ lowerFrom (q.toList.reverse ++ front.reverse) back :=
    lowerFrom_append fun u v hq => by simpa only [List.append_nil] using hagree u v hq
  unfold contains lower
  rw [String.toList_ofList, String.toList_ofList, occursIn_iff, hs, hfront, List.append_nil, hpart]
  exact List.infix_append' _ _ _

end Montage.Text
