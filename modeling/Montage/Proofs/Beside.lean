/-
# Moves beside a sibling

A move to one side of a sibling aims at a slot of the list as it is before the item is
taken out.  What stands behind the item then moves up by one, and the slot does not, so
it makes a difference where the item came from:

    y is the sibling              x stood behind y     x stood before y
    before y                      directly before y    directly behind y
    after y                       directly behind y    behind y, one further if it can be

`shifted` says where everything else stands after a move, and the table is read off from
it.  Behind `y` is always behind `y`; before `y` is so only for an item from behind it.
-/
import Mathlib.Data.List.Nodup
import Montage.Proofs.Place

namespace Montage

/-! ## The others -/

section Shift
variable {α : Type} {xs : List α} {x : α} {i j k : Nat}

/-- Where the item at place `j` comes to stand when another one goes from place `i` to `k`. -/
def shifted (i k j : Nat) : Nat :=
  let among := if j < i then j else j - 1
  if among < k then among else among + 1

theorem getElem?_shifted (hj : j ≠ i) :
    ((xs.eraseIdx i).insertIdx k x)[shifted i k j]? = xs[j]? := by
  have herase : (xs.eraseIdx i)[if j < i then j else j - 1]? = xs[j]? := by
    rw [List.getElem?_eraseIdx]
    by_cases hlt : j < i
    · rw [if_pos hlt, if_pos hlt]
    · rw [if_neg hlt, if_neg (by omega), Nat.sub_add_cancel (by omega)]
  rw [← herase, List.getElem?_insertIdx]
  unfold shifted
  generalize (if j < i then j else j - 1) = among
  dsimp only
  by_cases hlt : among < k
  · rw [if_pos hlt, if_pos hlt]
  · rw [if_neg hlt, if_neg (by omega), if_neg (by omega), Nat.add_sub_cancel]

theorem moveItem_eq_ok {ys : List α} {t : Int} (hi : xs[i]? = some x) :
    moveItem xs i t = .ok (ys, k) ↔
      k = clampTo (xs.length - 1) t ∧ ys = (xs.eraseIdx i).insertIdx k x := by
  have hlength : (xs.eraseIdx i).length = xs.length - 1 :=
    List.length_eraseIdx_of_lt (List.getElem?_eq_some_iff.mp hi).1
  unfold moveItem
  rw [hi]
  dsimp only
  rw [hlength, Except.ok.injEq, Prod.mk.injEq]
  constructor
  · rintro ⟨rfl, rfl⟩
    exact ⟨rfl, rfl⟩
  · rintro ⟨rfl, rfl⟩
    exact ⟨rfl, rfl⟩

/-- In a list without repetitions an item has one place. -/
theorem place_unique (hdistinct : xs.Nodup) (hi : xs[i]? = some x) (hj : xs[j]? = some x) :
    i = j :=
  (List.getElem?_inj (List.getElem?_eq_some_iff.mp hi).1 hdistinct).mp (hi.trans hj.symm)

end Shift

/-! ## The sibling -/

namespace Move

variable {ids : List String} {x y : String} {i j k l : Nat} {d : Direction} {mode : MoveMode}
  {label : String}

/-- Where an item stands beside a sibling, `k` and `l` being their places now and `i` and `j` the
places where they stood. -/
inductive Beside (i j k l : Nat) : Direction → Prop
  | after : l < k → Beside i j k l .after
  | back : j < i → k + 1 = l → Beside i j k l .before
  | past : i < j → l + 1 = k → Beside i j k l .before

/-- In a list of different ids, a request names one place. -/
theorem names_of_nodup {m : Move} (hdistinct : ids.Nodup) (hj : ids[j]? = some m.value) :
    m.Names (ids.map .text) j := by
  refine ⟨by rw [List.getElem?_map, hj, Option.map_some], fun n hn htext => ?_⟩
  rw [List.getElem?_map, Option.map_eq_some_iff] at htext
  obtain ⟨s, hs, htext⟩ := htext
  cases htext
  have hsame := place_unique hdistinct hs hj
  omega

/-- The slot on one side of a place. -/
def slot (j : Nat) : Direction → Int
  | .before => j
  | .after => j + 1

theorem target_sibling {m : Move} (hsibling : m.number? = none) {ids : List Value}
    (hj : m.Names ids j) (i : Int) (mode : MoveMode) (label : String) :
    m.target ids i mode label = .ok (slot j m.direction, .sibling) := by
  have hdigits : m.digits? = none := Option.map_eq_none_iff.mp hsibling
  unfold target
  rw [hdigits, findIdx?_isText.mpr hj]
  cases m.direction <;> rfl

/-- The slot on one side of the sibling, brought into the list, is beside it. -/
theorem beside_of_clamp {n : Nat} (hi : i < n) (hj : j < n) (hne : j ≠ i)
    (hk : k = clampTo (n - 1) (slot j d)) : Beside i j k (shifted i k j) d := by
  unfold clampTo at hk
  unfold shifted
  rcases Nat.lt_or_gt_of_ne hne with hlt | hgt
  · rw [if_pos hlt]
    dsimp only
    cases d with
    | after =>
        rw [slot] at hk
        exact .after (by split <;> omega)
    | before =>
        rw [slot] at hk
        exact .back hlt (by split <;> omega)
  · rw [if_neg (by omega : ¬ j < i)]
    dsimp only
    cases d with
    | after =>
        rw [slot] at hk
        exact .after (by split <;> omega)
    | before =>
        rw [slot] at hk
        exact .past hgt (by split <;> omega)

end Move

/-! ## The order of a collection -/

namespace Collection

variable {c : Collection} {p : Project} {ids : List String} {x : String} {i : Nat}
  {changes : Changes} {fps : Number} {frameFields : List String} {m : Move}
  {mode mode' : MoveMode} {t : Int} {u : Update c.Item}

theorem ids_eq_ok {vs : List Value} :
    c.ids p = .ok vs ↔ ∃ xs, c.items p = .ok xs ∧ xs.map Entity.id = vs := by
  simp only [Collection.ids, bind_eq_ok, pure_eq_ok]

/-- An item that keeps its id takes it along. -/
theorem ids_insertIdx {α : Type} [Entity α] {before after : List α} {a b : α} {k : Nat}
    (hid : Entity.id b = Entity.id a) :
    ((before ++ after).insertIdx k b).map Entity.id =
      (((before ++ a :: after).map Entity.id).eraseIdx before.length).insertIdx k
        (Entity.id a) := by
  rw [List.map_insertIdx, hid, List.eraseIdx_map, eraseIdx_length]

/-- After an update that moves an item and leaves its id, the ids are in the order of the move. -/
theorem ids_of_update (hdistinct : ids.Nodup) (hids : c.ids p = .ok (ids.map .text))
    (hx : ids[i]? = some x) (hchanges : ∀ d ∈ changes, d.1 ≠ "id")
    (ht : m.target (ids.map .text) i mode c.label = .ok (t, mode'))
    (hu : c.update p (.text x) changes fps frameFields (some m) mode = .ok u) :
    u.newIndex = clampTo (ids.length - 1) t ∧
      c.ids (u.project p) = .ok (((ids.eraseIdx i).insertIdx u.newIndex x).map .text) := by
  obtain ⟨before, a, after, b, diff, aim, ys, k, hxs, hfirst, haim, hmerge, harrange, rfl⟩ :=
    update_eq_ok.mp hu
  obtain ⟨xs, hxs', hmap⟩ := ids_eq_ok.mp hids
  obtain rfl := Except.ok.inj (hxs.symm.trans hxs')
  have ha : Entity.id a = .text x := (hasId_iff (Value.isText_text x)).mp hfirst.hasId
  obtain rfl : before.length = i := by
    have hget := congrArg (·[before.length]?) hmap
    rw [List.map_append, List.map_cons, ha] at hget
    simp only [List.getElem?_append_right, List.length_map, Nat.le_refl, Nat.sub_self,
      List.getElem?_cons_zero, List.getElem?_map] at hget
    obtain ⟨s, hs, htext⟩ := Option.map_eq_some_iff.mp hget.symm
    cases htext
    exact place_unique hdistinct hs hx
  obtain rfl : some t = aim := by
    simp only [Collection.aim, hmap, ht] at haim
    exact Except.ok.inj haim
  have hlength : (before ++ after).length = ids.length - 1 := by
    have hall := congrArg List.length hmap
    simp only [List.map_append, List.map_cons, List.length_append, List.length_cons,
      List.length_map] at hall ⊢
    omega
  obtain ⟨hk, rfl⟩ := arrange_eq_ok.mp harrange
  rw [landing, hlength] at hk
  split
  case isTrue hnone =>
    simp only [Bool.and_eq_true, List.isEmpty_iff, beq_iff_eq] at hnone
    obtain ⟨-, hsame⟩ := hnone
    refine ⟨hsame ▸ hk, hids.trans ?_⟩
    obtain ⟨hlt, hget⟩ := List.getElem?_eq_some_iff.mp hx
    rw [← hget, List.insertIdx_eraseIdx_getElem hlt]
  case isFalse =>
    refine ⟨hk, ids_eq_ok.mpr ⟨_, items_replace hxs _, ?_⟩⟩
    rw [ids_insertIdx (merge_id hmerge hchanges), hmap, ha, List.map_insertIdx, List.eraseIdx_map]

end Collection

namespace Move

variable {ids : List String} {x y : String} {i j : Nat}

/-- For every list of different ids, every item `x` at place `i` and every sibling `y` at place
`j`: a move of `x` to one side of `y` is answered, whatever numbers would mean, and afterwards the
same ids stand in an order with `x` `Beside` `y`.  After `y` this is somewhere behind it.  Before
`y` it is directly before it if `x` stood behind `y`, and otherwise directly behind it.  An update
of the item in any collection with these ids leaves them in this order, whatever else it changes
but the id. -/
theorem lands_beside (hdistinct : ids.Nodup) (hx : ids[i]? = some x) (hy : ids[j]? = some y)
    (hne : y ≠ x) (d : Direction) (hsibling : number? ⟨d, y⟩ = none) (mode : MoveMode)
    (label : String) :
    ∃ t ys k l, target ⟨d, y⟩ (ids.map .text) i mode label = .ok (t, .sibling) ∧
      moveItem ids i t = .ok (ys, k) ∧ ys.Perm ids ∧ ys[k]? = some x ∧ ys[l]? = some y ∧
      Beside i j k l d ∧
      ∀ (c : Collection) (p : Project) (changes : Changes) (fps : Number)
        (frameFields : List String) (u : Update c.Item),
        c.ids p = .ok (ids.map .text) → (∀ f ∈ changes, f.1 ≠ "id") →
        c.update p (.text x) changes fps frameFields (some ⟨d, y⟩) mode = .ok u →
        u.newIndex = k ∧ c.ids (u.project p) = .ok (ys.map .text) := by
  have hi := (List.getElem?_eq_some_iff.mp hx).1
  have hj := (List.getElem?_eq_some_iff.mp hy).1
  have hplaces : j ≠ i := by
    rintro rfl
    exact hne (Option.some.inj (hy.symm.trans hx))
  have htarget (label : String) : target ⟨d, y⟩ (ids.map .text) i mode label = .ok (slot j d, _) :=
    target_sibling hsibling (names_of_nodup hdistinct hy) i mode label
  generalize hk : clampTo (ids.length - 1) (slot j d) = k
  have hmove : moveItem ids i (slot j d) = .ok ((ids.eraseIdx i).insertIdx k x, k) :=
    (moveItem_eq_ok hx).mpr ⟨hk.symm, rfl⟩
  refine ⟨slot j d, _, k, shifted i k j, htarget label, hmove, Collection.moveItem_perm hmove, ?_,
    (getElem?_shifted hplaces).trans hy, beside_of_clamp hi hj hplaces hk.symm, ?_⟩
  · have hle : k ≤ (ids.eraseIdx i).length := by
      rw [List.length_eraseIdx_of_lt hi, ← hk]
      exact clampTo_le _ _
    rw [List.getElem?_insertIdx_self, if_pos hle]
  · intro c p changes fps frameFields u hids hchanges hu
    obtain ⟨hnew, horder⟩ :=
      Collection.ids_of_update hdistinct hids hx hchanges (htarget c.label) hu
    obtain rfl := hnew.trans hk
    exact ⟨rfl, horder⟩

/-- The first of two items, moved before the other one, comes to stand behind it. -/
theorem moved_before_and_behind :
    ["x", "y"].Nodup ∧
      target ⟨.before, "y"⟩ (["x", "y"].map .text) 0 .relative "Audio Track" = .ok (1, .sibling) ∧
      moveItem ["x", "y"] 0 1 = .ok (["y", "x"], 1) ∧ ¬ ["x", "y"].Sublist ["y", "x"] :=
  ⟨by decide, rfl, rfl, by decide⟩

/-- The last of three items, moved before the first one. -/
theorem last_lands_beside_first :
    ["a", "b", "c"].Nodup ∧ ["a", "b", "c"][2]? = some "c" ∧ ["a", "b", "c"][0]? = some "a" ∧
      "a" ≠ "c" ∧ number? ⟨.before, "a"⟩ = none ∧
      ∃ t ys k l, target ⟨.before, "a"⟩ (["a", "b", "c"].map .text) 2 .absolute "Page" =
          .ok (t, .sibling) ∧
        moveItem ["a", "b", "c"] 2 t = .ok (ys, k) ∧ ys = ["c", "a", "b"] ∧
        Beside 2 0 k l .before := by
  have hdistinct : ["a", "b", "c"].Nodup := by decide
  have hlast : ["a", "b", "c"][2]? = some "c" := rfl
  have hfirst : ["a", "b", "c"][0]? = some "a" := rfl
  have hsibling : number? ⟨.before, "a"⟩ = none := rfl
  obtain ⟨t, ys, k, l, ht, hmove, -, -, -, hbeside, -⟩ :=
    lands_beside hdistinct hlast hfirst (by decide) .before hsibling .absolute "Page"
  refine ⟨hdistinct, hlast, hfirst, by decide, hsibling, t, ys, k, l, ht, hmove, ?_, hbeside⟩
  cases ht
  cases hmove
  rfl

end Move

end Montage
