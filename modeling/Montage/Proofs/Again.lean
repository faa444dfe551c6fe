/-
# The same update again

An update that is made once more finds its changes made: every field holds what was given for it,
so the merge reports nothing (`Changes.merge_of_held`).  The move aims again, from where the item
stands now, and at a list in which the sibling may stand elsewhere.

    a position                    the same slot
    after a sibling before it     the same slot, since the sibling has not moved
    after the last sibling        the end, where it is
    after another sibling         the sibling has moved up by one: one place back
    before a sibling              the sibling has moved, too: to its other side
    before itself                 its own slot
    after itself                  one place further, unless that is the end

`Move.Settles` are the moves that find the item in its place.  All of this is told by the ids,
and there by `shifted`.
-/
import Montage.Proofs.Beside
import Montage.Proofs.Difference
import Montage.Proofs.Report
import Montage.Proofs.Request
import Montage.Proofs.Separate

namespace Montage

/-! ## The place -/

namespace Move

variable {ids : List Value} {m : Move} {mode : MoveMode} {x : Value} {i j k : Nat} {t : Int}

/-- The moves that would leave the item where they have put it from place `i`: to a position,
before the item itself, or behind a sibling that stood before it or was the last; behind the item
itself only from one of the last two places. -/
inductive Settles (ids : List Value) (i : Nat) : MoveMode → Move → Prop
  | position {m : Move} {n : Nat} : m.number? = some n → Settles ids i .absolute m
  | beforeItself {mode : MoveMode} {m : Move} :
      m.direction = .before → m.number? = none → m.Names ids i → Settles ids i mode m
  | afterItself {mode : MoveMode} {m : Move} :
      m.direction = .after → m.number? = none → m.Names ids i → i + 2 = ids.length →
        Settles ids i mode m
  | afterEarlier {mode : MoveMode} {m : Move} {j : Nat} :
      m.direction = .after → m.number? = none → m.Names ids j → j < i → Settles ids i mode m
  | afterLast {mode : MoveMode} {m : Move} {j : Nat} :
      m.direction = .after → m.number? = none → m.Names ids j → j + 1 = ids.length →
        Settles ids i mode m

/-- One place is named. -/
theorem Names.unique (h : m.Names ids i) (h' : m.Names ids j) : i = j := by
  rcases Nat.lt_trichotomy i j with hlt | rfl | hgt
  · exact absurd h.1 (h'.2 i hlt)
  · rfl
  · exact absurd h'.1 (h.2 j hgt)

theorem settles_before (hdirection : m.direction = .before) (hnone : m.number? = none)
    (hj : m.Names ids j) : Settles ids i mode m ↔ j = i := by
  constructor
  · intro h
    cases h with
    | position hn => cases hnone.symm.trans hn
    | beforeItself _ _ hi => exact hj.unique hi
    | afterItself hafter | afterEarlier hafter | afterLast hafter =>
        cases hdirection.symm.trans hafter
  · rintro rfl
    exact .beforeItself hdirection hnone hj

theorem settles_after (hdirection : m.direction = .after) (hnone : m.number? = none)
    (hj : m.Names ids j) : Settles ids i mode m ↔
      (j = i ∧ i + 2 = ids.length) ∨ j < i ∨ j + 1 = ids.length := by
  constructor
  · intro h
    cases h with
    | position hn => cases hnone.symm.trans hn
    | beforeItself hbefore => cases hdirection.symm.trans hbefore
    | afterItself _ _ hi hlength => exact .inl ⟨hj.unique hi, hlength⟩
    | afterEarlier _ _ hj' hlt => exact .inr (.inl (hj.unique hj' ▸ hlt))
    | afterLast _ _ hj' hlast => exact .inr (.inr (hj.unique hj' ▸ hlast))
  · rintro (⟨rfl, hlength⟩ | hlt | hlast)
    · exact .afterItself hdirection hnone hj hlength
    · exact .afterEarlier hdirection hnone hj hlt
    · exact .afterLast hdirection hnone hj hlast

/-- A position aims at one side of its place, in whatever list. -/
theorem Aims.of_position {n : Nat} (h : Aims ids i .absolute m t) (hn : m.number? = some n) :
    t = slot (n - 1) m.direction := by
  cases h with
  | earlier hmode | later hmode => exact absurd rfl hmode
  | beforeSibling _ hnone | afterSibling _ hnone => cases hn.symm.trans hnone
  | slotBefore hdirection hn' hpos | slotAfter hdirection hn' hpos =>
      cases hn.symm.trans hn'
      rw [hdirection, slot]
      omega

/-- A sibling is aimed at one side of its place. -/
theorem Aims.of_sibling (h : Aims ids i mode m t) (hnone : m.number? = none) :
    ∃ j, m.Names ids j ∧ t = slot j m.direction := by
  cases h with
  | slotBefore _ hn | slotAfter _ hn | earlier _ _ hn | later _ _ hn => cases hnone.symm.trans hn
  | beforeSibling hdirection _ hj | afterSibling hdirection _ hj => exact ⟨_, hj, hdirection ▸ rfl⟩

section Moved
variable (hnodup : ids.Nodup) (hx : ids[i]? = some x) (hk : k < ids.length)
include hnodup hx hk

/-- What is named after a move: the item at its new place, or a sibling where it has gone. -/
theorem names_moved {j' : Nat} (hj : m.Names ids j)
    (hj' : m.Names ((ids.eraseIdx i).insertIdx k x) j') :
    j' = if j = i then k else shifted i k j := by
  have hlength : (ids.eraseIdx i).length = ids.length - 1 :=
    List.length_eraseIdx_of_lt (List.getElem?_eq_some_iff.mp hx).1
  have hle : k ≤ (ids.eraseIdx i).length := by omega
  have hperm : ((ids.eraseIdx i).insertIdx k x).Perm ids := by
    obtain ⟨hi, rfl⟩ := List.getElem?_eq_some_iff.mp hx
    exact (List.perm_insertIdx _ _ hle).trans (List.getElem_cons_eraseIdx_perm hi)
  refine place_unique (hperm.nodup_iff.mpr hnodup) hj'.1 ?_
  by_cases hsame : j = i
  · rw [if_pos hsame, List.getElem?_insertIdx_self, if_pos hle, ← hx, ← hsame]
    exact hj.1
  · rw [if_neg hsame, getElem?_shifted hsame]
    exact hj.1

/-- A move of the item to where it has been moved lands there exactly if it settles. -/
theorem clamp_again_iff {t' : Int} (hplaced : m.number? = none ∨ mode = .absolute)
    (ht : Aims ids i mode m t) (hlands : k = clampTo (ids.length - 1) t)
    (ht' : Aims ((ids.eraseIdx i).insertIdx k x) k mode m t') :
    clampTo (ids.length - 1) t' = k ↔ Settles ids i mode m := by
  cases hnumber : m.number? with
  | some n =>
      obtain rfl : mode = .absolute := hplaced.resolve_left (by rw [hnumber]; nofun)
      rw [ht'.of_position hnumber, ← ht.of_position hnumber]
      exact iff_of_true hlands.symm (.position hnumber)
  | none =>
      obtain ⟨j, hj, rfl⟩ := ht.of_sibling hnumber
      obtain ⟨j', hj', rfl⟩ := ht'.of_sibling hnumber
      obtain rfl := names_moved hnodup hx hk hj hj'
      have hi := (List.getElem?_eq_some_iff.mp hx).1
      have hbound := (List.getElem?_eq_some_iff.mp hj.1).1
      unfold clampTo at hlands ⊢
      unfold shifted
      dsimp only
      cases hdirection : m.direction with
      | before =>
          rw [hdirection, slot] at hlands
          rw [settles_before hdirection hnumber hj, slot]
          split_ifs <;> omega
      | after =>
          rw [hdirection, slot] at hlands
          rw [settles_after hdirection hnumber hj, slot]
          split_ifs <;> omega

end Moved

end Move

/-! ## The update -/

namespace Collection

variable {c : Collection} {p : Project} {id : Value} {changes : Changes} {fps : Number}
  {frameFields : List String} {move : Option Move} {mode : MoveMode} {u : Update c.Item}

/-- An update of an item for which its changes are made does nothing but move it. -/
theorem exists_update_of_held {before after : List c.Item} {x : c.Item} {t : Option Int}
    (hxs : c.items p = .ok (before ++ x :: after)) (hfirst : FirstWithId id before x)
    (hheld : changes.Held x)
    (ht : c.aim (before ++ x :: after) before.length move mode = .ok t) :
    ∃ u, c.update p id changes fps frameFields move mode = .ok u ∧ u.diff = [] ∧
      (u.revised = none ↔ landing t before.length (before ++ after).length = before.length) := by
  refine ⟨_, update_eq_ok.mpr ⟨before, x, after, x, [], t, _, _, hxs, hfirst, ht,
    Changes.merge_of_held hheld, arrange_eq_ok.mpr ⟨rfl, rfl⟩, rfl⟩, by split <;> rfl, ?_⟩
  generalize landing t before.length (before ++ after).length = k
  by_cases hsame : k = before.length <;> simp [hsame]

/-- An update that changes no field gives another project, if it gives one. -/
theorem ne_of_revised {xs : List c.Item} (hids : Distinct (xs.map Entity.id))
    (hxs : c.items p = .ok xs) (hu : c.update p id changes fps frameFields move mode = .ok u)
    (hdiff : u.diff = []) : ∀ q, u.revised = some q → q ≠ p := by
  obtain ⟨before, x, after, y, diff, t, ys, k, hsplit, -, -, hmerge, harrange, rfl⟩ :=
    update_eq_ok.mp hu
  obtain rfl := Except.ok.inj (hxs.symm.trans hsplit)
  rintro q hq rfl
  split at hq
  · cases hq
  rename_i hmoved
  rw [if_neg hmoved] at hdiff
  obtain rfl : diff = [] := hdiff
  obtain rfl := Changes.eq_of_merge hmerge
  -- the item stands in both places
  have hitems := items_replace hsplit ys
  rw [Option.some.inj hq, hsplit] at hitems
  obtain rfl := Except.ok.inj hitems
  have hold : (before ++ y :: after)[before.length]? = some y := by simp
  have hnew : (before ++ y :: after)[k]? = some y := getElem?_arrange harrange hold
  have hplace : k = before.length :=
    place_unique (x := Entity.id y) hids.nodup (by rw [List.getElem?_map, hnew]; rfl)
      (by rw [List.getElem?_map, hold]; rfl)
  exact hmoved (by simp [hplace])

section Arranged
variable {before after : List c.Item} {x y : c.Item} {t t' : Option Int} {k : Nat}
  (hid : Entity.id y = Entity.id x)
include hid

theorem ids_insertIdx_perm (hk : k ≤ (before ++ after).length) :
    (((before ++ after).insertIdx k y).map Entity.id).Perm
      ((before ++ x :: after).map Entity.id) := by
  refine ((List.perm_insertIdx y _ hk).map _).trans ?_
  rw [List.map_cons, hid, ← List.map_cons]
  exact List.perm_middle.symm.map _

variable (ht : c.aim (before ++ x :: after) before.length move mode = .ok t)
include ht

/-- What is aimed at from one place is there wherever the item has gone. -/
theorem exists_aim_again (hk : k ≤ (before ++ after).length) :
    ∃ t', c.aim ((before ++ after).insertIdx k y) k move mode = .ok t' := by
  refine exists_aim_iff.mpr fun m hm => ?_
  have hnot := exists_aim_iff.mp ⟨t, ht⟩ m hm
  rwa [Move.Misses, (ids_insertIdx_perm hid hk).mem_iff]

/-- The item stays where it has been put exactly if the move settles. -/
theorem landing_again_iff (hnodup : ((before ++ x :: after).map Entity.id).Nodup)
    (hplaced : ∀ m, move = some m → m.number? = none ∨ mode = .absolute)
    (hk : k = landing t before.length (before ++ after).length)
    (ht' : c.aim ((before ++ after).insertIdx k y) k move mode = .ok t') :
    landing t' k (before ++ after).length = k ↔
      ∀ m, move = some m → m.Settles ((before ++ x :: after).map Entity.id) before.length mode := by
  have hle : k ≤ (before ++ after).length := hk ▸ landing_le (by simp)
  cases move with
  | none =>
      cases ht'
      exact iff_of_true rfl nofun
  | some m =>
      obtain ⟨s, rfl, haim⟩ := aims_of_aim ht
      obtain ⟨s', rfl, haim'⟩ := aims_of_aim ht'
      rw [ids_insertIdx hid] at haim'
      have hlength : ((before ++ x :: after).map Entity.id).length =
          (before ++ after).length + 1 := by
        simp [Nat.add_assoc]
      have hlast : ((before ++ x :: after).map Entity.id).length - 1 =
          (before ++ after).length := by
        rw [hlength, Nat.add_sub_cancel]
      have hsettles := Move.clamp_again_iff hnodup (by simp) (hlength ▸ Nat.lt_succ_of_le hle)
        (hplaced m rfl) haim (hlast ▸ hk) haim'
      rw [hlast] at hsettles
      rw [landing, hsettles]
      simp only [Option.some.injEq, forall_eq']

end Arranged

/-- An update made again, in a collection whose ids tell the items apart, finds the item and changes
no field.  It gives no project exactly if the move settles, and otherwise another one. -/
theorem update_again {xs : List c.Item} (hids : Distinct (xs.map Entity.id))
    (hxs : c.items p = .ok xs) (hchanges : changes.Settled)
    (hnamed : ∀ d ∈ changes, (Entity.field? (α := c.Item) d.1).isSome = true)
    (hstays : ∀ d ∈ changes, d.1 ≠ "id")
    (hplaced : ∀ m, move = some m → m.number? = none ∨ mode = .absolute)
    (hu : c.update p id changes fps frameFields move mode = .ok u) :
    ∃ i w, place? xs id = some i ∧
      c.update (u.project p) id changes fps frameFields move mode = .ok w ∧ w.diff = [] ∧
      (w.revised = none ↔ ∀ m, move = some m → m.Settles (xs.map Entity.id) i mode) ∧
      ∀ q, w.revised = some q → q ≠ u.project p := by
  obtain ⟨before, x, after, y, diff, t, ys, k, hsplit, hfirst, ht, hmerge, harrange, -⟩ :=
    update_eq_ok.mp hu
  obtain rfl := Except.ok.inj (hxs.symm.trans hsplit)
  obtain ⟨hk, rfl⟩ := arrange_eq_ok.mp harrange
  obtain ⟨_, hu', hitems, -⟩ := exists_update hxs hfirst ht hmerge hk rfl
  cases hu.symm.trans hu'
  have hid : Entity.id y = Entity.id x := merge_id hmerge hstays
  have hle : k ≤ (before ++ after).length := hk ▸ landing_le (by simp)
  have hheld : changes.Held y :=
    Changes.held_of_merge hnamed c.holdsSet hchanges.once
      (fun d hd => (hchanges.definite d hd).same_self) hmerge
  obtain ⟨t', ht'⟩ := exists_aim_again hid ht hle
  have hplace := landing_again_iff hid ht hids.nodup hplaced hk ht'
  -- the item is where it was put, and the first with the id
  have hsplit := insertIdx_of_le hle y
  have hlength : ((before ++ after).take k).length = k := List.length_take_of_le hle
  have hagain : FirstWithId id ((before ++ after).take k) y := by
    refine ⟨?_, fun z hz => ?_⟩
    · rw [Entity.hasId, hid]
      exact hfirst.hasId
    · exact (idsDiffer_of_distinct hids).others hfirst z (List.mem_of_mem_take hz)
  rw [hsplit] at hitems ht'
  have hdistinct := hids.perm (ids_insertIdx_perm hid hle)
  rw [hsplit] at hdistinct
  obtain ⟨w, hw, hdiff, hrevised⟩ :=
    exists_update_of_held hitems hagain hheld (by rwa [hlength])
  rw [List.take_append_drop, hlength, hplace] at hrevised
  exact ⟨before.length, w, place?_eq_some.mpr ⟨before, x, after, rfl, rfl, hfirst⟩, hw, hdiff,
    hrevised, ne_of_revised hdistinct hitems hw hdiff⟩

end Collection

/-! ## Notes -/

namespace Notes

variable {p : Project} {id : Value} {changes : Changes} {fps : Number} {frameFields : List String}
  {mode : MoveMode} {now : String} {u v : Update Note}

/-- The stamp keeps all fields but its own. -/
theorem held_stamped {note : Note} {time : Value} (hnames : ∀ d ∈ changes, d.1 ≠ "updated_at")
    (h : changes.Held note) : changes.Held { note with updatedAt := time } := by
  intro d hd
  obtain ⟨f, hf, hheld⟩ := h d hd
  refine ⟨f, hf, ?_⟩
  cases f with
  | updatedAt => exact absurd (Entity.name_of_field? hf).symm (hnames d hd)
  | _ => exact hheld

/-- A note that was changed, and stamped, is changed no more by the same update. -/
theorem update_again (hchanges : changes.Settled)
    (hnamed : ∀ d ∈ changes, (Entity.field? (α := Note) d.1).isSome = true)
    (hstays : ∀ d ∈ changes, d.1 ≠ "id") (hstamp : ∀ d ∈ changes, d.1 ≠ "updated_at")
    (hu : Collection.notes.update p id changes fps frameFields none mode = .ok u)
    (hv : stamp now u = .ok v) :
    ∃ notes w, (if v.changed then v.revised else none).getD p = { p with notes } ∧
      Collection.notes.update { p with notes } id changes fps frameFields none mode = .ok w ∧
      w.revised = none ∧ w.diff = [] := by
  have hsame : v.changed = u.changed := by
    unfold stamp at hv
    split at hv
    · cases hv
      rfl
    · obtain ⟨_, -, hv⟩ := bind_eq_ok.mp hv
      cases hv
      rfl
  obtain ⟨before, x, after, -, hfirst, hcases⟩ := stamp_cases hu hv
  rcases hcases with ⟨-, hunchanged⟩ | ⟨diff, hmerge, -, hchanged, hrevised⟩
  · have hsame := hsame.symm.trans hunchanged
    rw [hunchanged]
    refine ⟨p.notes, u, rfl, hu, Collection.revised_of_unchanged hu hsame, ?_⟩
    simp only [Update.changed, Bool.or_eq_false_iff] at hsame
    simpa using hsame.1
  · have hheld : changes.Held v.item :=
      Changes.held_of_merge hnamed Note.holdsSet hchanges.once
        (fun d hd => (hchanges.definite d hd).same_self) hmerge
    have hid : Entity.id v.item = Entity.id x := Collection.merge_id (c := .notes) hmerge hstays
    let note : Note := { v.item with updatedAt := .text now }
    have hfirst' : FirstWithId id before note :=
      ⟨by rw [← hfirst.hasId, Entity.hasId, Entity.hasId, ← hid]; rfl, hfirst.first⟩
    have hitems : Collection.notes.items { p with notes := before ++ note :: after } = .ok _ :=
      Collection.items_notes.mpr rfl
    obtain ⟨w, hw, hdiff, hnone⟩ := Collection.exists_update_of_held hitems hfirst'
      (held_stamped hstamp hheld) (rfl : Collection.notes.aim _ _ none mode = .ok none)
    rw [hchanged, if_pos rfl, hrevised]
    exact ⟨_, w, rfl, hw, hnone.mpr rfl, hdiff⟩

end Notes

end Montage
