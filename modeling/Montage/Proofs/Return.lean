/-
# An item moved, and moved back

A move takes an item out of its list and puts it in again at the place aimed at, or at the
nearer end:

    the list           xs    the item at place i
    without the item   xs.eraseIdx i
    after the move     ys    the item at place f

Everything rests on the line in the middle: without the item at place `f`, the list after the
move is the list that was left when the item had been taken out (`eraseIdx_of_moveItem`).  So
the others keep their order, and a second move, from `f` to `i`, starts where the first one put
the item in and ends where it took it out (`moveItem_undone`).  Nothing is assumed of the
items, which may repeat, nor of the place aimed at, which may be on either side of the list.
-/
import Montage.Proofs.Beside

namespace Montage

variable {α : Type} {xs ys : List α} {x : α} {i k : Nat} {t : Int}

/-- A list with an item has a last place, and the place aimed at is brought up to it. -/
theorem clampTo_pred {n : Nat} (hn : 0 < n) (t : Int) :
    (clampTo (n - 1) t : Int) = max 0 (min t (n - 1)) := by
  unfold clampTo
  omega

/-- A place in a list is no further than the end of the list without one of its items. -/
theorem clampTo_place (hi : i < xs.length) : clampTo (xs.length - 1) i = i := by
  unfold clampTo
  omega

/-- A move can be made from any place in the list. -/
theorem exists_moveItem (hi : xs[i]? = some x) (t : Int) :
    ∃ ys k, moveItem xs i t = .ok (ys, k) ∧ k = clampTo (xs.length - 1) t ∧
      ys = (xs.eraseIdx i).insertIdx k x :=
  ⟨_, _, (moveItem_eq_ok hi).mpr ⟨rfl, rfl⟩, rfl, rfl⟩

theorem place_of_moveItem (hi : xs[i]? = some x) (h : moveItem xs i t = .ok (ys, k)) :
    k ≤ (xs.eraseIdx i).length := by
  rw [List.length_eraseIdx_of_lt (List.getElem?_eq_some_iff.mp hi).1,
    ((moveItem_eq_ok hi).mp h).1]
  exact clampTo_le _ _

/-- The item stands at the place that the move answers. -/
theorem getElem?_of_moveItem (hi : xs[i]? = some x) (h : moveItem xs i t = .ok (ys, k)) :
    ys[k]? = some x := by
  have hk := place_of_moveItem hi h
  rw [((moveItem_eq_ok hi).mp h).2, List.getElem?_insertIdx_self, if_pos hk]

/-- Without the item the list is what it was without it before. -/
theorem eraseIdx_of_moveItem (hi : xs[i]? = some x) (h : moveItem xs i t = .ok (ys, k)) :
    ys.eraseIdx k = xs.eraseIdx i := by
  rw [((moveItem_eq_ok hi).mp h).2, List.eraseIdx_insertIdx_self]

/-- An item goes back to the place that it came from. -/
theorem moveItem_back (hi : xs[i]? = some x) (h : moveItem xs i t = .ok (ys, k)) :
    moveItem ys k i = .ok (xs, i) := by
  have hplace := (List.getElem?_eq_some_iff.mp hi).1
  rw [moveItem_eq_ok (getElem?_of_moveItem hi h), (Collection.moveItem_perm h).length_eq,
    eraseIdx_of_moveItem hi h]
  refine ⟨(clampTo_place hplace).symm, ?_⟩
  obtain ⟨_, rfl⟩ := List.getElem?_eq_some_iff.mp hi
  exact (List.insertIdx_eraseIdx_getElem hplace).symm

/-- Every item can be moved to every place: the items are the same, the moved one stands at the
place aimed at or at the nearer end, the others keep their order, and moving it back to its old
place gives the list from before. -/
theorem moveItem_undone (xs : List α) (i : Nat) (hi : i < xs.length) (t : Int) :
    ∃ ys f, moveItem xs i t = .ok (ys, f) ∧ ys.Perm xs ∧ ys[f]? = some xs[i] ∧
      (f : Int) = max 0 (min t (xs.length - 1)) ∧ ys.eraseIdx f = xs.eraseIdx i ∧
      moveItem ys f i = .ok (xs, i) := by
  have hx : xs[i]? = some xs[i] := List.getElem?_eq_getElem hi
  obtain ⟨ys, f, hmove, hf, -⟩ := exists_moveItem hx t
  refine ⟨ys, f, hmove, Collection.moveItem_perm hmove, getElem?_of_moveItem hx hmove, ?_,
    eraseIdx_of_moveItem hx hmove, moveItem_back hx hmove⟩
  rw [hf, clampTo_pred (Nat.zero_lt_of_lt hi)]

/-- The first of two equal letters goes past the end of the word and comes back. -/
theorem letter_moved_and_back : 0 < ['a', 'b', 'a'].length ∧
    ∃ ys f, moveItem ['a', 'b', 'a'] 0 7 = .ok (ys, f) ∧ ys.Perm ['a', 'b', 'a'] ∧
      ys[f]? = some 'a' ∧ (f : Int) = max 0 (min 7 2) ∧ ys.eraseIdx f = ['b', 'a'] ∧
      moveItem ys f 0 = .ok (['a', 'b', 'a'], 0) :=
  ⟨by decide, moveItem_undone ['a', 'b', 'a'] 0 (by decide) 7⟩

end Montage
