/-
# What a stable sort keeps

A stable sort does not touch the order of what it takes to be equal.  So items that it would leave
as they stand are left as they stand among the others too (`filter_mergeSort`), and a list that was
in one order and is sorted by another is in the order of the second, with ties in the order of the
first (`pairwise_mergeSort_ties`).
-/
import Mathlib.Data.List.Pairwise

namespace Montage

variable {α : Type} {le : α → α → Bool} {l : List α}

/-- Items that are in order among themselves stand in a sorted list as they stood before. -/
theorem filter_mergeSort (trans : ∀ a b c, le a b = true → le b c = true → le a c = true)
    (total : ∀ a b, (le a b || le b a) = true) {p : α → Bool}
    (h : (l.filter p).Pairwise fun a b => le a b = true) :
    (l.mergeSort le).filter p = l.filter p := by
  have hlength : ((l.mergeSort le).filter p).length = (l.filter p).length :=
    ((l.mergeSort_perm le).filter p).length_eq
  have hkept := (l.sublist_mergeSort trans total h List.filter_sublist).filter p
  rw [List.filter_filter, List.filter_congr fun _ _ => Bool.and_self _] at hkept
  exact (hkept.eq_of_length hlength.symm).symm

/-- Ties are in the order in which the list was before. -/
theorem pairwise_mergeSort_ties (trans : ∀ a b c, le a b = true → le b c = true → le a c = true)
    (total : ∀ a b, (le a b || le b a) = true) {R : α → α → Prop} (h : l.Pairwise R) :
    (l.mergeSort le).Pairwise fun a b => le a b = true ∧ (le b a = true → R a b) := by
  rw [List.pairwise_iff_forall_sublist]
  intro a b hab
  have hle : le a b = true :=
    List.pairwise_iff_forall_sublist.mp (List.pairwise_mergeSort trans total l) hab
  refine ⟨hle, fun hback => ?_⟩
  -- the items that tie with `a` are in order in any arrangement, so they stand as they stood
  let tied : α → Bool := fun x => le x a && le a x
  have hself : le a a = true := by simpa using total a a
  have htied : (l.filter tied).Pairwise fun x y => le x y = true := by
    refine List.pairwise_of_forall_mem_list fun x hx y hy => ?_
    have hx := (Bool.and_eq_true_iff.mp (List.mem_filter.mp hx).2).1
    have hy := (Bool.and_eq_true_iff.mp (List.mem_filter.mp hy).2).2
    exact trans x a y hx hy
  have hpair : [a, b].filter tied = [a, b] := by
    simp [tied, hself, hle, hback]
  have hbefore := hab.filter tied
  rw [hpair, filter_mergeSort trans total htied] at hbefore
  exact List.pairwise_iff_forall_sublist.mp h (hbefore.trans List.filter_sublist)

end Montage
