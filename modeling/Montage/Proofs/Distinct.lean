/-
# Ids that tell items apart

`Distinct ids` says that the ids are texts and pairwise distinct.  Every operation
on a collection keeps this of the ids of its items: an added item has a new id, a
removed one takes its id away, and a changed or moved one keeps its own.

`Fresh taken ids` says the same of ids that were drawn: they are distinct, and none
of them was taken.  Copying a page draws an id for the page and one for each of its
elements; every draw counts as taken for the draws after it, and this is what
carries the inductions here.
-/
import Montage.Command.Pages
import Montage.Proofs.Ids

namespace Montage

/-! ## Distinct ids -/

/-- The ids are texts, and no two of them are the same. -/
structure Distinct (ids : List Value) : Prop where
  texts : ∀ id ∈ ids, id.IsText
  nodup : ids.Nodup

namespace Distinct

variable {ids ids' : List Value} {id : Value}

theorem nil : Distinct [] := ⟨by simp, List.nodup_nil⟩

theorem cons (hid : id.IsText) (hnew : id ∉ ids) (h : Distinct ids) : Distinct (id :: ids) where
  texts := by
    intro v hv
    rcases List.mem_cons.mp hv with rfl | hv
    · exact hid
    · exact h.texts v hv
  nodup := List.nodup_cons.mpr ⟨hnew, h.nodup⟩

theorem uncons (h : Distinct (id :: ids)) : id.IsText ∧ id ∉ ids ∧ Distinct ids := by
  obtain ⟨hnew, hnodup⟩ := List.nodup_cons.mp h.nodup
  exact ⟨h.texts id List.mem_cons_self, hnew,
    fun v hv => h.texts v (List.mem_cons_of_mem _ hv), hnodup⟩

theorem perm (h : Distinct ids) (hp : ids'.Perm ids) : Distinct ids' :=
  ⟨fun v hv => h.texts v (hp.mem_iff.mp hv), hp.nodup_iff.mpr h.nodup⟩

theorem sublist (h : Distinct ids) (hs : ids'.Sublist ids) : Distinct ids' :=
  ⟨fun v hv => h.texts v (hs.subset hv), h.nodup.sublist hs⟩

theorem append (h : Distinct ids) (h' : Distinct ids') (hd : ∀ v ∈ ids, v ∉ ids') :
    Distinct (ids ++ ids') where
  texts := by
    intro v hv
    rcases List.mem_append.mp hv with hv | hv
    · exact h.texts v hv
    · exact h'.texts v hv
  nodup := List.nodup_append.mpr
    ⟨h.nodup, h'.nodup, fun v hv w hw hvw => hd v hv (hvw ▸ hw)⟩

section Entity
variable {α : Type} [Entity α] {xs : List α} {x : α}

theorem add (h : Distinct (xs.map Entity.id)) (hx : (Entity.id x).IsText)
    (hnew : ∀ y ∈ xs, Entity.hasId y (Entity.id x) = false) :
    Distinct ((xs ++ [x]).map Entity.id) := by
  rw [List.map_append, List.map_singleton]
  exact (h.cons hx (not_mem_ids hx hnew)).perm (List.perm_append_singleton _ _)

theorem filter (h : Distinct (xs.map Entity.id)) (f : α → Bool) :
    Distinct ((xs.filter f).map Entity.id) :=
  h.sublist (List.filter_sublist.map _)

end Entity

end Distinct

/-! ## Fresh ids -/

/-- Items put in at a place, brought to the front. -/
theorem perm_put {α : Type} (xs new : List α) (i : Nat) :
    (xs.take i ++ new ++ xs.drop i).Perm (new ++ xs) := by
  rw [List.append_assoc]
  refine (List.perm_append_comm_assoc _ _ _).trans ?_
  rw [List.take_append_drop]

/-- The ids are distinct and none of them is taken. -/
structure Fresh (taken ids : List Value) : Prop where
  distinct : Distinct ids
  free : ∀ id ∈ ids, id ∉ taken

namespace Fresh

variable {taken taken' ids ids' : List Value} {id : Value}

theorem nil : Fresh taken [] := ⟨.nil, by simp⟩

/-- Ids that were drawn one after the other, each against all before it. -/
theorem append (h : Fresh taken ids) (h' : Fresh taken' ids') (htaken : taken ⊆ taken')
    (hids : ids ⊆ taken') : Fresh taken (ids ++ ids') where
  distinct := h.distinct.append h'.distinct fun v hv hv' => h'.free v hv' (hids hv)
  free := by
    intro v hv
    rcases List.mem_append.mp hv with hv | hv
    · exact h.free v hv
    · exact fun hmem => h'.free v hv (htaken hmem)

theorem cons (h : Fresh taken [id]) (h' : Fresh (id :: taken) ids) : Fresh taken (id :: ids) :=
  h.append h' (List.subset_cons_self _ _) (by simp)

/-- Fresh ids beside the taken ones. -/
theorem join (h : Fresh taken ids) (ht : Distinct taken) : Distinct (ids ++ taken) :=
  h.distinct.append ht h.free

end Fresh

theorem drawId_fresh {source : IdSource} {word id : String} {taken : List Value} {n k : Nat}
    (h : Yields (drawId source word taken) n id k) : Fresh taken [.text id] where
  distinct := Distinct.nil.cons (Value.isText_text id) List.not_mem_nil
  free := by
    intro v hv
    obtain rfl := List.mem_singleton.mp hv
    exact drawId_not_mem h

/-! ## New pages -/

namespace Pages

variable {source : IdSource} {n k : Nat}

/-- The ids of the elements on some pages. -/
def elementIds (pages : List Page) : List Value :=
  pages.flatMap fun page => page.elements.map (·.id)

theorem copyElements_fresh {taken taken' : List Value} {es copies : List Element}
    (h : Yields (copyElements source taken es) n (copies, taken') k) :
    Fresh taken (copies.map (·.id)) ∧ taken ⊆ taken' ∧ copies.map (·.id) ⊆ taken' := by
  induction es generalizing taken copies n with
  | nil =>
      obtain ⟨heq, -⟩ := yields_pure.mp h
      cases heq
      exact ⟨.nil, List.Subset.refl _, by simp⟩
  | cons e rest ih =>
      simp only [copyElements, yields_bind, Prod.exists, yields_pure, Prod.mk.injEq] at h
      obtain ⟨id, _, hid, cs, _, _, hcs, ⟨rfl, rfl⟩, rfl⟩ := h
      obtain ⟨hfresh, htaken, hmem⟩ := ih hcs
      refine ⟨(drawId_fresh hid).cons hfresh, fun v hv => htaken (List.mem_cons_of_mem _ hv), ?_⟩
      intro v hv
      rcases List.mem_cons.mp hv with rfl | hv
      · exact htaken List.mem_cons_self
      · exact hmem hv

theorem copies_fresh {page : Page} {takenPages takenElements : List Value} {m i : Nat}
    {pages : List Page} (h : Yields (copies source page takenPages takenElements m i) n pages k) :
    Fresh takenPages (pages.map (·.id)) ∧ Fresh takenElements (elementIds pages) := by
  induction m generalizing takenPages takenElements i n k pages with
  | zero =>
      obtain ⟨rfl, -⟩ := yields_pure.mp h
      exact ⟨.nil, .nil⟩
  | succ m ih =>
      simp only [copies, yields_bind, Prod.exists, yields_pure] at h
      obtain ⟨es, taken, _, hes, id, _, hid, rest, _, hrest, rfl, -⟩ := h
      obtain ⟨hpages, helements⟩ := ih hrest
      obtain ⟨hcopies, htaken, hmem⟩ := copyElements_fresh hes
      exact ⟨(drawId_fresh hid).cons hpages, hcopies.append helements htaken hmem⟩

theorem blankPage_eq {duration name : Value} {taken : List Value} {page : Page}
    (h : Yields (blankPage source duration name taken) n page k) :
    Fresh taken [page.id] ∧ page.elements = [] := by
  unfold blankPage at h
  simp only [yields_bind, yields_pure] at h
  obtain ⟨id, _, hid, rfl, -⟩ := h
  exact ⟨drawId_fresh hid, rfl⟩

theorem blanks_fresh {fps : Int} {taken : List Value} {m number : Nat} {pages : List Page}
    (h : Yields (blanks source fps taken m number) n pages k) :
    Fresh taken (pages.map (·.id)) ∧ elementIds pages = [] := by
  induction m generalizing taken number n k pages with
  | zero =>
      obtain ⟨rfl, -⟩ := yields_pure.mp h
      exact ⟨.nil, rfl⟩
  | succ m ih =>
      simp only [blanks, yields_bind, yields_pure] at h
      obtain ⟨page, _, hpage, rest, _, hrest, rfl, -⟩ := h
      obtain ⟨hid, helements⟩ := blankPage_eq hpage
      obtain ⟨hpages, hnone⟩ := ih hrest
      refine ⟨hid.cons hpages, ?_⟩
      unfold elementIds at hnone ⊢
      rw [List.flatMap_cons, helements, hnone]
      rfl

/-- New pages have new ids, and so have their elements. -/
theorem draft_fresh {p : Project} {c : Composition} {original : Option Page} {m : Nat}
    {pages : List Page} (h : Yields (draft source p c original m) n pages k) :
    Fresh (c.pages.map (·.id)) (pages.map (·.id)) ∧ Fresh c.elementIds (elementIds pages) := by
  unfold draft at h
  cases original with
  | some page => exact copies_fresh h
  | none =>
      obtain ⟨hpages, hnone⟩ := blanks_fresh h
      exact ⟨hpages, hnone ▸ .nil⟩

end Pages

end Montage
