/-
# Where an update leaves the items

An update merges changes into the first item with an id and may move it
(`update_places`):

    before the update   before ++ x :: after      x is the first item with the id
    after it            the same items, with the merged item `y` for `x` at its place
    all others          before ++ after, in this order

The place aimed at is told by the list as it is before the item is taken out
(`Move.Aims`), and is then brought into the list (`landing`).  Everything follows from one
equation: after the item is taken out, `before ++ after` is left, and the list after the
update is this one with `y` inserted at the landing place (`arrange_eq`).

What belongs to the collection is read back from a project as it was put there
(`items_replace`), and nothing beyond it is touched (`Within`).
-/
import Mathlib.Data.List.InsertIdx
import Montage.Proofs.Collection

namespace Montage

/-! ## Moving an item -/

section Lists
variable {α : Type} {before after : List α}

theorem insertIdx_of_le {xs : List α} {k : Nat} (hk : k ≤ xs.length) (y : α) :
    xs.insertIdx k y = xs.take k ++ y :: xs.drop k := by
  induction xs generalizing k with
  | nil =>
      obtain rfl := Nat.le_zero.mp hk
      rfl
  | cons x xs ih =>
      cases k with
      | zero => rfl
      | succ k => simp [ih (Nat.le_of_succ_le_succ hk)]

theorem insertIdx_length (y : α) :
    (before ++ after).insertIdx before.length y = before ++ y :: after := by
  rw [insertIdx_of_le (by simp), List.take_left, List.drop_left]

theorem eraseIdx_length (y : α) :
    (before ++ y :: after).eraseIdx before.length = before ++ after := by
  rw [List.eraseIdx_append_of_length_le (Nat.le_refl _), Nat.sub_self, List.eraseIdx_cons_zero]

end Lists

theorem clampTo_le (n : Nat) (t : Int) : clampTo n t ≤ n := by
  unfold clampTo; omega

namespace Collection

/-- Where an item from place `i` comes to stand among `n` others. -/
def landing (target : Option Int) (i n : Nat) : Nat :=
  match target with
  | none => i
  | some t => clampTo n t

theorem landing_le {t : Option Int} {i n : Nat} (hi : i ≤ n) : landing t i n ≤ n := by
  cases t with
  | none => exact hi
  | some t => exact clampTo_le n t

/-- The list with an item put in its new place is that of the others, with the item inserted. -/
theorem arrange_eq_ok {α : Type} {before after ys : List α} {y : α} {t : Option Int} {k : Nat} :
    arrange (before ++ y :: after) before.length t = .ok (ys, k) ↔
      k = landing t before.length (before ++ after).length ∧
        ys = (before ++ after).insertIdx k y := by
  have heq : arrange (before ++ y :: after) before.length t =
      .ok ((before ++ after).insertIdx (landing t before.length (before ++ after).length) y,
        landing t before.length (before ++ after).length) := by
    cases t with
    | none =>
        show Except.ok _ = _
        rw [landing, insertIdx_length]
    | some t => simp [arrange, moveItem, eraseIdx_length, landing]
  rw [heq, Except.ok.injEq, Prod.mk.injEq]
  constructor
  · rintro ⟨rfl, rfl⟩
    exact ⟨rfl, rfl⟩
  · rintro ⟨rfl, rfl⟩
    exact ⟨rfl, rfl⟩

end Collection

/-! ## The place aimed at -/

namespace Move

variable {m : Move} {ids : List Value} {i : Nat} {mode : MoveMode} {t : Int}

/-- The number that a request is, if it is one. -/
def number? (m : Move) : Option Nat := m.digits?.map Text.natOfDigits

/-- Whether `j` is the place of the first id that is the text of the request. -/
def Names (m : Move) (ids : List Value) (j : Nat) : Prop :=
  ids[j]? = some (.text m.value) ∧ ∀ k < j, ids[k]? ≠ some (.text m.value)

/-- The place that a request aims at, for the item at place `i` of a list with these ids: the slot
before or after a position, so many slots from `i`, or the slot before or after a sibling. -/
inductive Aims (ids : List Value) (i : Nat) : MoveMode → Move → Int → Prop
  | slotBefore {m : Move} {n : Nat} :
      m.direction = .before → m.number? = some n → 1 ≤ n → Aims ids i .absolute m (n - 1)
  | slotAfter {m : Move} {n : Nat} :
      m.direction = .after → m.number? = some n → 1 ≤ n → Aims ids i .absolute m n
  | earlier {mode : MoveMode} {m : Move} {n : Nat} : mode ≠ .absolute →
      m.direction = .before → m.number? = some n → 1 ≤ n → Aims ids i mode m (i - n)
  | later {mode : MoveMode} {m : Move} {n : Nat} : mode ≠ .absolute →
      m.direction = .after → m.number? = some n → 1 ≤ n → Aims ids i mode m (i + n)
  | beforeSibling {mode : MoveMode} {m : Move} {j : Nat} :
      m.direction = .before → m.number? = none → m.Names ids j → Aims ids i mode m j
  | afterSibling {mode : MoveMode} {m : Move} {j : Nat} :
      m.direction = .after → m.number? = none → m.Names ids j → Aims ids i mode m (j + 1)

/-- The request is the number zero, or names a sibling that is not there. -/
def Misses (m : Move) (ids : List Value) : Prop :=
  m.number? = some 0 ∨ (m.number? = none ∧ .text m.value ∉ ids)

theorem Aims.not_misses (h : Aims ids i mode m t) : ¬ m.Misses ids := by
  have hnumber {n : Nat} (hn : m.number? = some n) (hpos : 1 ≤ n) : ¬ m.Misses ids := by
    rintro (hzero | ⟨hnone, -⟩)
    · obtain rfl := Option.some.inj (hn.symm.trans hzero)
      cases hpos
    · cases hn.symm.trans hnone
  have hsibling {j : Nat} (hnone : m.number? = none) (hj : m.Names ids j) : ¬ m.Misses ids := by
    rintro (hzero | ⟨-, hmissing⟩)
    · cases hnone.symm.trans hzero
    · exact hmissing (List.mem_of_getElem? hj.1)
  cases h with
  | slotBefore _ hn hpos | slotAfter _ hn hpos => exact hnumber hn hpos
  | earlier _ _ hn hpos | later _ _ hn hpos => exact hnumber hn hpos
  | beforeSibling _ hnone hj | afterSibling _ hnone hj => exact hsibling hnone hj

theorem findIdx?_isText {j : Nat} :
    ids.findIdx? (·.isText m.value) = some j ↔ m.Names ids j := by
  rw [List.findIdx?_eq_some_iff_getElem]
  constructor
  · rintro ⟨hj, htext, hfirst⟩
    rw [Value.isText_iff] at htext
    refine ⟨by rw [List.getElem?_eq_getElem hj, htext], fun k hk hkey => ?_⟩
    obtain ⟨_, hkey⟩ := List.getElem?_eq_some_iff.mp hkey
    exact hfirst k hk (Value.isText_iff.mpr hkey)
  · rintro ⟨htext, hfirst⟩
    obtain ⟨hj, htext⟩ := List.getElem?_eq_some_iff.mp htext
    refine ⟨hj, Value.isText_iff.mpr htext, fun k hk hkey => hfirst k hk ?_⟩
    rw [List.getElem?_eq_getElem (Nat.lt_trans hk hj), Value.isText_iff.mp hkey]

/-- A request that is answered aims at the place answered. -/
theorem aims_of_target {label : String} {mode' : MoveMode}
    (h : m.target ids i mode label = .ok (t, mode')) : Aims ids i mode m t := by
  unfold target at h
  split at h
  · rename_i ds hds
    have hn : m.number? = some (Text.natOfDigits ds) := by rw [number?, hds, Option.map_some]
    obtain ⟨hpos, h⟩ := guard_eq_ok.mp h
    have hpos : 1 ≤ Text.natOfDigits ds := by omega
    cases hdirection : m.direction with
    | before =>
        rw [hdirection] at h
        cases mode with
        | absolute =>
            cases h
            exact .slotBefore hdirection hn hpos
        | relative | sibling =>
            cases h
            exact .earlier nofun hdirection hn hpos
    | after =>
        rw [hdirection] at h
        cases mode with
        | absolute =>
            cases h
            exact .slotAfter hdirection hn hpos
        | relative | sibling =>
            cases h
            exact .later nofun hdirection hn hpos
  · rename_i hds
    have hnone : m.number? = none := by rw [number?, hds, Option.map_none]
    split at h
    · rename_i j hj hdirection
      cases h
      exact .beforeSibling hdirection hnone (findIdx?_isText.mp hj)
    · rename_i j hj hdirection
      cases h
      exact .afterSibling hdirection hnone (findIdx?_isText.mp hj)
    · cases h

/-- A request is answered unless it misses. -/
theorem exists_target_iff {label : String} :
    (∃ r, m.target ids i mode label = .ok r) ↔ ¬ m.Misses ids := by
  constructor
  · rintro ⟨⟨t, mode'⟩, h⟩
    exact (aims_of_target h).not_misses
  · intro h
    unfold target
    cases hds : m.digits? with
    | some ds =>
        have hpos : ¬ (Text.natOfDigits ds : Int) < 1 := by
          intro hzero
          have hzero : Text.natOfDigits ds = 0 := by omega
          exact h (.inl (by rw [number?, hds, Option.map_some, hzero]))
        exact ⟨_, if_neg hpos⟩
    | none =>
        cases hj : ids.findIdx? (·.isText m.value) with
        | some j => cases m.direction <;> exact ⟨_, rfl⟩
        | none =>
            refine absurd (.inr ⟨by rw [number?, hds, Option.map_none], fun hmem => ?_⟩) h
            rw [List.findIdx?_eq_none_iff] at hj
            have htext := hj _ hmem
            rw [Value.isText_iff.mpr rfl] at htext
            cases htext

end Move

/-! ## Merging -/

namespace Changes

variable {α : Type} [Entity α] {x y : α} {fps : Number} {frameFields : List String}

theorem setFields_nil (fs : List (Entity.Field α)) : fs.foldlM (setField []) x = .ok x := by
  induction fs with
  | nil => rfl
  | cons f fs ih => exact ih

/-- A merge that reports nothing leaves the entity as it was. -/
theorem eq_of_merge {changes : Changes} (h : merge x fps frameFields changes = .ok (y, [])) :
    y = x := by
  obtain ⟨es, -, -, hy, hes⟩ := merge_eq_ok.mp h
  rw [List.map_eq_nil_iff] at hes
  rw [hes, setFields_nil] at hy
  exact (Except.ok.inj hy).symm

theorem merge_nil : merge x fps frameFields [] = .ok (x, []) :=
  merge_eq_ok.mpr ⟨[], rfl, nofun, setFields_nil _, rfl⟩

end Changes

/-! ## A collection and what is beyond it -/

namespace Collection

variable {p q : Project} {c : Collection}

/-- The items are those that were put there. -/
theorem items_replace {xs : List c.Item} (h : c.items p = .ok xs) (ys : List c.Item) :
    c.items (c.replace p ys) = .ok ys := by
  cases c with
  | pages =>
      obtain ⟨d, hd, rfl⟩ := items_pages.mp h
      rw [replace_pages hd]
      rfl
  | audios =>
      obtain ⟨d, hd, rfl⟩ := items_audios.mp h
      rw [replace_audios hd]
      rfl
  | notes => rfl
  | elements pageId =>
      obtain ⟨d, before, page, after, hd, hpages, hfirst, rfl⟩ := items_elements.mp h
      rw [replace_elements hd hpages hfirst]
      exact items_elements.mpr ⟨_, before, _, after, rfl, rfl, ⟨hfirst.hasId, hfirst.first⟩, rfl⟩

/-- `q` is `p` with other items in the collection. -/
def Within : Collection → Project → Project → Prop
  | pages, p, q => ∃ c pages, p.composition = some c ∧
      q = { p with composition := some { c with pages } }
  | audios, p, q => ∃ c audios, p.composition = some c ∧
      q = { p with composition := some { c with audios } }
  | notes, p, q => ∃ notes, q = { p with notes }
  | elements pageId, p, q => ∃ c before page after elements noElements,
      p.composition = some c ∧ c.pages = before ++ page :: after ∧
        FirstWithId pageId before page ∧ q = { p with
          composition := some { c with
            pages := before ++ { page with elements, noElements } :: after } }

theorem within_replace {xs : List c.Item} (h : c.items p = .ok xs) (ys : List c.Item) :
    c.Within p (c.replace p ys) := by
  cases c with
  | pages =>
      obtain ⟨d, hd, rfl⟩ := items_pages.mp h
      exact ⟨d, ys, hd, replace_pages hd ys⟩
  | audios =>
      obtain ⟨d, hd, rfl⟩ := items_audios.mp h
      exact ⟨d, ys, hd, replace_audios hd ys⟩
  | notes => exact ⟨ys, rfl⟩
  | elements pageId =>
      obtain ⟨d, before, page, after, hd, hpages, hfirst, rfl⟩ := items_elements.mp h
      exact ⟨d, before, page, after, ys, .list [], hd, hpages, hfirst,
        replace_elements hd hpages hfirst ys⟩

theorem within_self {xs : List c.Item} (h : c.items p = .ok xs) : c.Within p p := by
  cases c with
  | pages =>
      obtain ⟨d, hd, rfl⟩ := items_pages.mp h
      exact ⟨d, d.pages, hd, (Project.withComposition_self hd).symm⟩
  | audios =>
      obtain ⟨d, hd, rfl⟩ := items_audios.mp h
      exact ⟨d, d.audios, hd, (Project.withComposition_self hd).symm⟩
  | notes => exact ⟨p.notes, rfl⟩
  | elements pageId =>
      obtain ⟨d, before, page, after, hd, hpages, hfirst, rfl⟩ := items_elements.mp h
      refine ⟨d, before, page, after, page.elements, page.noElements, hd, hpages, hfirst, ?_⟩
      rw [← hpages]
      exact (Project.withComposition_self hd).symm

/-! ## Updates -/

/-- Where the item from place `i` of a list with these ids stands after a move, if there is one. -/
def Lands (ids : List Value) (i : Nat) (mode : MoveMode) (move : Option Move) (k : Nat) : Prop :=
  match move with
  | none => k = i
  | some m => ∃ t, m.Aims ids i mode t ∧ (k : Int) = max 0 (min t (ids.length - 1))

section Update
variable {id : Value} {changes : Changes} {fps : Number} {frameFields : List String}
  {move : Option Move} {mode : MoveMode}

theorem exists_aim_iff {xs : List c.Item} {i : Nat} : (∃ t, c.aim xs i move mode = .ok t) ↔
    ∀ m, move = some m → ¬ m.Misses (xs.map Entity.id) := by
  cases move with
  | none => exact ⟨fun _ => nofun, fun _ => ⟨none, rfl⟩⟩
  | some m =>
      simp only [aim, bind_eq_ok, pure_eq_ok, Option.some.injEq, forall_eq']
      refine Iff.trans (b := ∃ r, m.target (xs.map Entity.id) i mode c.label = .ok r) ?_
        Move.exists_target_iff
      constructor
      · rintro ⟨t, r, hr, -⟩
        exact ⟨r, hr⟩
      · rintro ⟨r, hr⟩
        exact ⟨_, r, hr, rfl⟩

theorem aims_of_aim {xs : List c.Item} {i : Nat} {m : Move} {t : Option Int}
    (h : c.aim xs i (some m) mode = .ok t) :
    ∃ t', t = some t' ∧ m.Aims (xs.map Entity.id) i mode t' := by
  simp only [aim, bind_eq_ok, pure_eq_ok] at h
  obtain ⟨⟨t', mode'⟩, ht, rfl⟩ := h
  exact ⟨t', rfl, Move.aims_of_target ht⟩

/-- A place aimed at from place `i` is where the item lands, among one item less. -/
theorem lands_of_aim {xs : List c.Item} {i n : Nat} {t : Option Int}
    (h : c.aim xs i move mode = .ok t) (hn : xs.length = n + 1) :
    Lands (xs.map Entity.id) i mode move (landing t i n) := by
  cases move with
  | none =>
      cases h
      rfl
  | some m =>
      obtain ⟨t, rfl, haim⟩ := aims_of_aim h
      refine ⟨t, haim, ?_⟩
      rw [List.length_map, hn, landing, clampTo]
      omega

/-- An update merges the changes into the first item with the id, and either found nothing to do, or
gives the project with the merged item at some place among the others. -/
theorem update_inserts {u : Update c.Item} (h : c.update p id changes fps frameFields move mode = .ok u) :
    ∃ before x after diff k, c.items p = .ok (before ++ x :: after) ∧ FirstWithId id before x ∧
      Changes.merge x fps frameFields changes = .ok (u.item, diff) ∧
      k ≤ (before ++ after).length ∧
      ((u.item = x ∧ k = before.length ∧ u.changed = false) ∨
        (u.changed = true ∧
          u.revised = some (c.replace p ((before ++ after).insertIdx k u.item)))) := by
  obtain ⟨before, x, after, y, diff, t, ys, k, hxs, hfirst, -, hmerge, hys, rfl⟩ :=
    update_eq_ok.mp h
  obtain ⟨hk, rfl⟩ := arrange_eq_ok.mp hys
  have hle : k ≤ (before ++ after).length := hk ▸ landing_le (by simp)
  refine ⟨before, x, after, diff, k, hxs, hfirst, ?_⟩
  split
  case isTrue hnone =>
    -- nothing was reported, so the merged item is the one that was there
    simp only [Bool.and_eq_true, List.isEmpty_iff, beq_iff_eq] at hnone
    obtain ⟨rfl, hk⟩ := hnone
    obtain rfl := Changes.eq_of_merge hmerge
    exact ⟨hmerge, hle, .inl ⟨rfl, hk, by simp [Update.changed]⟩⟩
  case isFalse hsome =>
    refine ⟨hmerge, hle, .inr ⟨?_, rfl⟩⟩
    simp only [Update.changed, Bool.or_eq_true, Bool.not_eq_true', bne_iff_ne]
    simpa only [Bool.and_eq_true, beq_iff_eq, not_and_or, Bool.not_eq_true] using hsome

/-- For every project, collection, id, list of changes and move: an update answers exactly when an
item has the id, the move is neither zero nor names a sibling that is not there, and the changes
can be merged into the first item with the id.  Its answer tells the place of this item and the
merged one.  Afterwards the merged item stands in the new place, and all others are as they were
and in their order; the new place is the old one without a move and otherwise the place aimed at,
brought into the list.  Nothing beyond the collection is another, and there is no revised project
when neither a field nor the place changed. -/
theorem update_places (c : Collection) (p : Project) (id : Value) (changes : Changes)
    (fps : Number) (frameFields : List String) (move : Option Move) (mode : MoveMode) :
    ((∃ u, c.update p id changes fps frameFields move mode = .ok u) ↔
      ∃ before x after, c.items p = .ok (before ++ x :: after) ∧ FirstWithId id before x ∧
        (∀ m, move = some m → ¬ m.Misses ((before ++ x :: after).map Entity.id)) ∧
        ∃ r, Changes.merge x fps frameFields changes = .ok r) ∧
    ∀ u, c.update p id changes fps frameFields move mode = .ok u →
      ∃ before x after ys, c.items p = .ok (before ++ x :: after) ∧
        FirstWithId id before x ∧ u.oldIndex = before.length ∧
        Changes.merge x fps frameFields changes = .ok (u.item, u.diff) ∧
        c.items (u.project p) = .ok ys ∧ ys[u.newIndex]? = some u.item ∧
        ys.eraseIdx u.newIndex = before ++ after ∧
        Lands ((before ++ x :: after).map Entity.id) u.oldIndex mode move u.newIndex ∧
        c.Within p (u.project p) ∧
        (u.diff = [] → u.newIndex = u.oldIndex → u.revised = none) := by
  refine ⟨⟨?returns, ?answers⟩, ?placed⟩
  case returns =>
    rintro ⟨u, hu⟩
    obtain ⟨before, x, after, y, diff, t, _, _, hxs, hfirst, ht, hy, -⟩ := update_eq_ok.mp hu
    exact ⟨before, x, after, hxs, hfirst, exists_aim_iff.mp ⟨t, ht⟩, _, hy⟩
  case answers =>
    rintro ⟨before, x, after, hxs, hfirst, hmove, ⟨y, diff⟩, hy⟩
    obtain ⟨t, ht⟩ := exists_aim_iff.mpr hmove
    exact ⟨_, update_eq_ok.mpr ⟨before, x, after, y, diff, t, _, _, hxs, hfirst, ht, hy,
      arrange_eq_ok.mpr ⟨rfl, rfl⟩, rfl⟩⟩
  case placed =>
    intro u hu
    obtain ⟨before, x, after, y, diff, t, ys, k, hxs, hfirst, ht, hy, hk, rfl⟩ :=
      update_eq_ok.mp hu
    obtain ⟨hplace, rfl⟩ := arrange_eq_ok.mp hk
    have hle : k ≤ (before ++ after).length := hplace ▸ landing_le (by simp)
    have hland : Lands ((before ++ x :: after).map Entity.id) before.length mode move k :=
      hplace ▸ lands_of_aim ht (by simp [Nat.add_assoc])
    refine ⟨before, x, after, ?_⟩
    split
    case isTrue hnone =>
      -- nothing was reported, so the merged item is the one that was there
      simp only [Bool.and_eq_true, List.isEmpty_iff, beq_iff_eq] at hnone
      obtain ⟨rfl, hk⟩ := hnone
      obtain rfl := Changes.eq_of_merge hy
      rw [hk] at hland
      exact ⟨_, hxs, hfirst, rfl, hy, hxs, by simp, eraseIdx_length y, hland, within_self hxs,
        fun _ _ => rfl⟩
    case isFalse hsome =>
      refine ⟨_, hxs, hfirst, rfl, hy, items_replace hxs _, ?item, List.eraseIdx_insertIdx_self y,
        hland, within_replace hxs _, ?same⟩
      case item =>
        rw [List.getElem?_insertIdx_self, if_pos hle]
      case same =>
        intro (hdiff : diff = []) (hk : k = before.length)
        exact absurd (by rw [hdiff, hk]; simp) hsome

end Update

/-- Three notes. -/
def threeNotes : Project where
  id := "project"
  name := .text "Notes"
  notes := ["a", "b", "c"].map fun id => { id := .text id, time := .int 0, text := .text id }

/-- The last note gets another text and goes to the front. -/
theorem note_goes_first : ∃ (u : Update Note) (ys : List Note),
    notes.update threeNotes (.text "c") [("text", .text "new")] (.int 30) []
      (some ⟨.before, "1"⟩) .absolute = .ok u ∧
    u.newIndex = 0 ∧ notes.items (u.project threeNotes) = .ok ys ∧ ys[0]? = some u.item ∧
    (ys.eraseIdx 0).map (·.text.display) = ["a", "b"] := by
  obtain ⟨hreturns, hplaces⟩ := update_places notes threeNotes (.text "c")
    [("text", .text "new")] (.int 30) [] (some ⟨.before, "1"⟩) .absolute
  have hnumber : Move.number? ⟨.before, "1"⟩ = some 1 := by decide +kernel
  have hmerges : (Changes.merge (α := Note) { id := .text "c", time := .int 0, text := .text "c" }
      (.int 30) [] [("text", .text "new")]).toOption.isSome = true := by decide +kernel
  obtain ⟨r, hr⟩ := Option.isSome_iff_exists.mp hmerges
  have hmove : ∀ m : Move, some ⟨.before, "1"⟩ = some m →
      ¬ m.Misses (threeNotes.notes.map Entity.id) := by
    rintro m hm (hzero | ⟨hnone, -⟩) <;> cases hm
    · cases hnumber.symm.trans hzero
    · cases hnumber.symm.trans hnone
  obtain ⟨u, hu⟩ := hreturns.mpr ⟨threeNotes.notes.take 2, _, [], rfl, ⟨rfl, by decide⟩, hmove, r,
    toOption_eq_some.mp hr⟩
  obtain ⟨before, x, after, ys, hxs, hfirst, hold, -, hys, hitem, herase, hland, -⟩ := hplaces u hu
  have hnotes : threeNotes.notes = before ++ x :: after := Except.ok.inj hxs
  have hthree : threeNotes.notes.length = 3 := rfl
  have hlength : before.length = 2 :=
    Option.some.inj ((place?_eq_some.mpr ⟨before, x, after, hnotes, rfl, hfirst⟩).symm.trans
      (by decide : place? threeNotes.notes (.text "c") = some 2))
  have hfront : u.newIndex = 0 := by
    obtain ⟨t, haims, ht⟩ := hland
    cases haims with
    | slotBefore _ hn _ =>
        obtain rfl := Option.some.inj (hnumber.symm.trans hn)
        rw [← hnotes, List.length_map, hthree] at ht
        omega
    | slotAfter hdirection => cases hdirection
    | earlier hmode | later hmode => exact absurd rfl hmode
    | beforeSibling _ hnone | afterSibling _ hnone => cases hnumber.symm.trans hnone
  rw [hfront] at hitem herase
  refine ⟨u, ys, hu, hfront, hys, hitem, ?_⟩
  rw [herase, ← eraseIdx_length x, hlength, ← hnotes]
  decide

end Collection
end Montage
