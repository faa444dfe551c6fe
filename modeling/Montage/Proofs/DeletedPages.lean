/-
# Deleted pages

`/del-page` deletes a block of pages: the one that the line names, or else the selected
one, and the pages behind it, as many as asked for or as there are.

    pages before     before ++ block ++ after
    pages after      before ++ after

If the selected page is not in the block it stays selected, whether the selection names
it or falls back to it.  If it is, the first page of `after` is selected, or the last one
of `before` if the block reached to the end, and no element (`Deletes`).  A line that may
run is refused for four reasons only (`Undeletable`): there is no composition, the options
are invalid, no page is meant, or no page would remain.

The command goes by places in the old list, deletes by ids and selects by places in the new
list.  That all three speak of one block rests on the ids of the pages being distinct.
-/
import Mathlib.Data.List.Nodup
import Montage.Proofs.Lines
import Montage.Proofs.Range

namespace Montage

/-! ## What is deleted, and what is left -/

section Statement
variable (p : Project) (c : Composition)

/-- The page that a command is about: the one with the id given, or else the selected one. -/
inductive Pages.Means : Option String → Page → Prop
  | named {id : String} {page : Page} : page ∈ p.pages → page.id = .text id → Means (some id) page
  | selected {page : Page} : p.selectedPage? = some page → Means none page

/-- The pages that the options mean stand between `before` and `after`. -/
structure Pages.Block (args : Arguments) (before block after : List Page) : Prop where
  pages : c.pages = before ++ block ++ after
  start : ∃ page ∈ block.head?, Means p (args.nonempty? "id") page
  length : block.length = min (count args) (c.pages.length - before.length)

/-- Why the pages that a line means cannot be deleted. -/
inductive Pages.Undeletable (tokens : List String) : Prop
  | composition : p.composition = none → Undeletable tokens
  | options {f : Fault} : deleteGrammar.parse tokens (.int p.fps) = .error f → Undeletable tokens
  | page {args : Arguments} : deleteGrammar.parse tokens (.int p.fps) = .ok args →
      (∀ page, ¬ Means p (args.nonempty? "id") page) → Undeletable tokens
  | all {c : Composition} {args : Arguments} {block : List Page} : p.composition = some c →
      deleteGrammar.parse tokens (.int p.fps) = .ok args → Block p c args [] block [] →
      Undeletable tokens

/-- How the project `q` after the pages between `before` and `after` were deleted is made of the
project `p` before it. -/
structure Pages.Deletes (before block after : List Page) (q : Project) : Prop where
  fields : q = { p with
    composition := some { c with pages := before ++ after }
    appState := { p.appState with
      selectedPageId := q.appState.selectedPageId
      selectedElementId := q.appState.selectedElementId } }
  kept : ∀ page, p.selectedPage? = some page → page ∉ block →
    q.selectedPage? = some page ∧ q.appState = p.appState
  moved : ∀ page, p.selectedPage? = some page → page ∈ block →
    ∃ next, after.head?.or before.getLast? = some next ∧ q.selectedPage? = some next ∧
      q.appState.selectedPageId = next.id ∧ q.appState.selectedElementId = .null

end Statement

variable {p : Project} {c : Composition}

/-! ## Items with distinct ids -/

section Distinct
variable {α : Type} [Entity α] {before block after : List α} {x : α}

/-- Among items with distinct ids each is the first one with its id. -/
theorem Distinct.firstWithId (h : Distinct ((before ++ x :: after).map Entity.id)) :
    FirstWithId (Entity.id x) before x := by
  rw [List.map_append, List.map_cons] at h
  have hx : (Entity.id x).IsText := h.texts _ (by simp)
  refine ⟨(hasId_iff hx).mpr rfl, fun b hb => Bool.eq_false_iff.mpr fun hsame => ?_⟩
  obtain ⟨-, -, hdiffer⟩ := List.nodup_append.mp h.nodup
  exact hdiffer _ (List.mem_map_of_mem hb) _ List.mem_cons_self ((hasId_iff hx).mp hsame)

/-- Among items with distinct ids those with an id from a block are in the block. -/
theorem Distinct.any_hasId_iff {xs : List α} (h : Distinct (xs.map Entity.id))
    (hblock : block ⊆ xs) (hx : x ∈ xs) :
    (block.map Entity.id).any (Entity.hasId x) = true ↔ x ∈ block := by
  rw [List.any_eq_true]
  have htext : (Entity.id x).IsText := h.texts _ (List.mem_map_of_mem hx)
  constructor
  · rintro ⟨id, hid, hsame⟩
    obtain ⟨y, hy, rfl⟩ := List.mem_map.mp hid
    rwa [List.inj_on_of_nodup_map h.nodup hx (hblock hy) ((hasId_iff' htext).mp hsame)]
  · intro hmem
    exact ⟨_, List.mem_map_of_mem hmem, (hasId_iff' htext).mpr rfl⟩

/-- Without those that have an id from a block the items are those around it. -/
theorem Distinct.filter_block (h : Distinct ((before ++ block ++ after).map Entity.id)) :
    (before ++ block ++ after).filter (fun x => !(block.map Entity.id).any (Entity.hasId x)) =
      before ++ after := by
  have hsub : block ⊆ before ++ block ++ after := fun x hx => by simp [hx]
  have htest {x : α} (hx : x ∈ before ++ block ++ after) := h.any_hasId_iff hsub hx
  obtain ⟨hfront, -, hback⟩ := List.nodup_append.mp (List.Nodup.of_map _ h.nodup)
  obtain ⟨-, -, hmiddle⟩ := List.nodup_append.mp hfront
  have hkeep {xs : List α} (hxs : ∀ x ∈ xs, x ∈ before ++ block ++ after ∧ x ∉ block) :
      xs.filter (fun x => !(block.map Entity.id).any (Entity.hasId x)) = xs := by
    refine List.filter_eq_self.mpr fun x hx => ?_
    rw [Bool.not_eq_true', ← Bool.not_eq_true, htest (hxs x hx).1]
    exact (hxs x hx).2
  have hgone : block.filter (fun x => !(block.map Entity.id).any (Entity.hasId x)) = [] := by
    refine List.filter_eq_nil_iff.mpr fun x hx => ?_
    rw [Bool.not_eq_true', Bool.not_eq_false, htest (hsub hx)]
    exact hx
  rw [List.filter_append, List.filter_append, hgone, List.append_nil,
    hkeep fun x hx => ⟨by simp [hx], fun hmem => hmiddle x hx x hmem rfl⟩,
    hkeep fun x hx =>
      ⟨by simp [hx], fun hmem => hback x (List.mem_append_right _ hmem) x hx rfl⟩]

end Distinct

/-! ## The selected page -/

section Selected
variable {page : Page}

theorem Project.distinct_pages (h : Distinct p.pageIds) (hc : p.composition = some c) :
    Distinct (c.pages.map Entity.id) := by
  unfold pageIds at h
  rwa [pages_eq hc] at h

/-- The page with the selected id is selected. -/
theorem Project.selectedPage?_of_id (hids : Distinct p.pageIds) (hpage : page ∈ p.pages)
    (hid : p.appState.selectedPageId = page.id) : p.selectedPage? = some page := by
  obtain ⟨before, after, hsplit⟩ := List.append_of_mem hpage
  unfold pageIds at hids
  rw [hsplit] at hids
  refine selectedPage?_of_find? (find?_hasId_eq_some.mpr ⟨before, after, hsplit, ?_⟩)
  rw [hid]
  exact hids.firstWithId

/-- If no page has the selected id, the first one is selected. -/
theorem Project.selectedPage?_of_none {rest : List Page} (hpages : p.pages = page :: rest)
    (hnone : ∀ x ∈ p.pages, Entity.hasId x p.appState.selectedPageId = false) :
    p.selectedPage? = some page := by
  rw [hpages] at hnone
  have hfind : (page :: rest).find? (Entity.hasId · p.appState.selectedPageId) = none :=
    List.find?_eq_none.mpr fun x hx => by simp [hnone x hx]
  unfold selectedPage?
  rw [hpages]
  dsimp only
  rw [hfind, Option.getD_none]

/-- If the selected id is none of a page, the first one is selected. -/
theorem Project.selectedPage?_of_not_mem (hids : ∀ id ∈ p.pageIds, id.IsText)
    (hnot : p.appState.selectedPageId ∉ p.pageIds) : p.selectedPage? = p.pages.head? := by
  cases hpages : p.pages with
  | nil =>
      unfold selectedPage?
      rw [hpages]
      rfl
  | cons page rest =>
      refine selectedPage?_of_none hpages fun x hx => Bool.eq_false_iff.mpr fun hsame => hnot ?_
      have hid : (Entity.id x).IsText := hids _ (List.mem_map_of_mem hx)
      exact (hasId_iff' hid).mp hsame ▸ List.mem_map_of_mem hx

/-- The selected page has the selected id, or it is the first one and no page has this id. -/
theorem Project.selectedPage?_cases (hids : ∀ id ∈ p.pageIds, id.IsText)
    (h : p.selectedPage? = some page) :
    p.appState.selectedPageId = page.id ∨ ((∃ rest, p.pages = page :: rest) ∧
      ∀ x ∈ p.pages, Entity.hasId x p.appState.selectedPageId = false) := by
  have htext : page.id.IsText := hids _ (List.mem_map_of_mem (selectedPage?_mem h))
  unfold selectedPage? at h
  split at h
  · cases h
  · rename_i first rest hpages
    obtain rfl := Option.some.inj h
    cases hfind : (first :: rest).find? (Entity.hasId · p.appState.selectedPageId) with
    | none =>
        refine .inr ⟨⟨rest, hpages⟩, fun x hx => ?_⟩
        exact Bool.eq_false_iff.mpr (List.find?_eq_none.mp hfind x (hpages ▸ hx))
    | some page =>
        rw [hfind] at htext
        obtain ⟨_, _, -, hfirst⟩ := find?_hasId_eq_some.mp hfind
        exact .inl ((hasId_iff' htext).mp hfirst.hasId).symm

end Selected

/-! ## Deleting a block -/

namespace Pages

variable {before block after : List Page}

/-- The page at the place of a block that was taken out, or else the last one. -/
theorem getElem?_place (before after : List Page) :
    (before ++ after)[min before.length ((before ++ after).length - 1)]? =
      after.head?.or before.getLast? := by
  cases after with
  | nil =>
      rw [List.append_nil, Nat.min_eq_right (Nat.sub_le _ _), List.head?_nil, Option.none_or,
        List.getLast?_eq_getElem?]
  | cons a after =>
      have hle : before.length ≤ (before ++ a :: after).length - 1 := by simp
      rw [Nat.min_eq_left hle, List.getElem?_append_right (Nat.le_refl _), Nat.sub_self]
      rfl

/-- The selected page is not deleted, and stays selected. -/
theorem selected_kept {page : Page} (hids : Distinct p.pageIds) (hc : p.composition = some c)
    (hpages : c.pages = before ++ block ++ after) (hblock : block ≠ [])
    (hpage : p.selectedPage? = some page) (hout : page ∉ block) :
    Project.selectedPage? { p with composition := some { c with pages := before ++ after } } =
      some page := by
  have hsub : (before ++ after).Sublist c.pages := by simp [hpages]
  rcases Project.selectedPage?_cases hids.texts hpage with hid | ⟨⟨rest, hrest⟩, hnone⟩
  · refine Project.selectedPage?_of_id ?distinct ?mem hid
    case distinct => exact (Project.distinct_pages hids hc).sublist (hsub.map _)
    case mem =>
      have hmem := Project.selectedPage?_mem hpage
      rw [Project.pages_eq hc, hpages] at hmem
      simpa [hout, Project.pages] using hmem
  · rw [Project.pages_eq hc] at hrest hnone
    -- the first page is not in the block, so there is one in front of the block
    cases before with
    | nil =>
        rw [hrest] at hpages
        cases block with
        | nil => exact absurd rfl hblock
        | cons first block =>
            obtain rfl : page = first := (List.cons.inj hpages).1
            exact absurd List.mem_cons_self hout
    | cons first before =>
        obtain rfl : page = first := (List.cons.inj (hrest.symm.trans hpages)).1
        exact Project.selectedPage?_of_none rfl fun x hx => hnone x (hsub.subset hx)

/-- The selected page is deleted, and the next one is selected, or else the last one. -/
theorem selectAt_block {q : Project} (hids : Distinct q.pageIds)
    (hpages : q.pages = before ++ after) (hremain : before ++ after ≠ []) :
    ∃ next, after.head?.or before.getLast? = some next ∧
      selectAt q before.length = .ok (withSelected q next.id) ∧
      (withSelected q next.id).selectedPage? = some next := by
  have hplace := getElem?_place before after
  have hlt : min before.length ((before ++ after).length - 1) < (before ++ after).length := by
    have hpos := List.length_pos_iff.mpr hremain
    omega
  rw [List.getElem?_eq_getElem hlt] at hplace
  refine ⟨_, hplace.symm, ?_, ?_⟩
  · unfold selectAt
    dsimp only
    rw [hpages, List.getElem?_eq_getElem hlt]
  · refine Project.selectedPage?_of_id hids ?_ rfl
    show _ ∈ q.pages
    rw [hpages]
    exact List.getElem_mem hlt

theorem remove_block (hids : Distinct p.pageIds) (hc : p.composition = some c)
    (hpages : c.pages = before ++ block ++ after) :
    Collection.pages.remove p (block.map (·.id)) =
      .ok { p with composition := some { c with pages := before ++ after } } := by
  have hdistinct := Project.distinct_pages hids hc
  have htexts : ∀ id ∈ block.map Entity.id, id.IsText := fun id hid =>
    hdistinct.texts id (List.map_subset _ (by simp [hpages]) hid)
  have hremoved := Collection.remove_of_texts (Collection.items_pages.mpr ⟨c, hc, rfl⟩) htexts
    hdistinct.texts
  rw [hpages] at hdistinct hremoved
  rwa [hdistinct.filter_block, Collection.replace_pages hc] at hremoved

theorem without_block (hids : Distinct p.pageIds) (hc : p.composition = some c)
    (hpages : c.pages = before ++ block ++ after) (hblock : block ≠ [])
    (hremain : before ++ after ≠ []) :
    ∃ q, without p before.length (block.map (·.id)) = .ok q ∧
      Deletes p c before block after q := by
  have hdistinct := Project.distinct_pages hids hc
  have hsub : (before ++ after).Sublist c.pages := by simp [hpages]
  obtain ⟨page, hpage⟩ : ∃ page, p.selectedPage? = some page :=
    Project.selectedPage?_isSome (by simp [Project.pages_eq hc, hpages, hblock])
  have hin : (block.map (·.id)).any (Entity.hasId page) = true ↔ page ∈ block :=
    hdistinct.any_hasId_iff (by simp [hpages])
      (Project.pages_eq hc ▸ Project.selectedPage?_mem hpage)
  unfold without
  rw [remove_block hids hc hpages, ok_bind, hpage, Option.any_some]
  by_cases hmem : page ∈ block
  case pos =>
    rw [if_pos (hin.mpr hmem)]
    obtain ⟨next, hnext, hselect, hselected⟩ := selectAt_block
      (q := { p with composition := some { c with pages := before ++ after } })
      (hdistinct.sublist (List.Sublist.map _ hsub)) rfl hremain
    refine ⟨_, hselect, rfl, fun page' hpage' hout => ?_, fun page' _ _ =>
      ⟨next, hnext, hselected, rfl, rfl⟩⟩
    cases hpage.symm.trans hpage'
    exact absurd hmem hout
  case neg =>
    rw [if_neg (mt hin.mp hmem)]
    refine ⟨_, rfl, rfl, fun page' hpage' hout =>
      ⟨selected_kept hids hc hpages hblock hpage' hout, rfl⟩, fun page' hpage' hin' => ?_⟩
    cases hpage.symm.trans hpage'
    exact absurd hin' hmem

/-! ## The block that a line means -/

section Line
variable {args : Arguments} {page : Page}

theorem require_split (hids : Distinct p.pageIds) (hc : p.composition = some c)
    (hpages : c.pages = before ++ page :: after) :
    Collection.pages.require p page.id = .ok (before.length, page) := by
  have hdistinct := Project.distinct_pages hids hc
  rw [hpages] at hdistinct
  exact Collection.require_eq_ok.mpr ⟨before, after,
    Collection.items_pages.mpr ⟨c, hc, hpages⟩, rfl, hdistinct.firstWithId⟩

/-- The page that a command finds is the one that is meant. -/
theorem target_eq_ok_iff {given : Option String} (hids : Distinct p.pageIds)
    (hc : p.composition = some c) : target p [given] = .ok page ↔ Means p given page := by
  rw [target_eq_ok]
  have hgiven : [given].findSome? id = given := by cases given <;> rfl
  rw [hgiven]
  constructor
  · rintro (⟨rfl, hselected⟩ | ⟨id, i, rfl, hx⟩)
    · exact .selected hselected
    · obtain ⟨before, after, hxs, -, hfirst⟩ := Collection.require_eq_ok.mp hx
      obtain ⟨c', hc', hpages⟩ := Collection.items_pages.mp hxs
      refine .named ?_ ((hasId_iff (Value.isText_text _)).mp hfirst.hasId)
      simp [Project.pages_eq hc', hpages]
  · rintro (⟨hmem, hid⟩ | hselected)
    · rename_i id
      rw [Project.pages_eq hc] at hmem
      obtain ⟨before, after, hpages⟩ := List.append_of_mem hmem
      exact .inr ⟨id, _, rfl, hid ▸ require_split hids hc hpages⟩
    · exact .inl ⟨rfl, hselected⟩

theorem Means.mem {given : Option String} (h : Means p given page) : page ∈ p.pages := by
  cases h with
  | named hmem => exact hmem
  | selected h => exact Project.selectedPage?_mem h

/-- The page that is meant starts a block. -/
theorem Means.exists_block (h : Means p (args.nonempty? "id") page) (hc : p.composition = some c)
    (hcount : 0 < count args) : ∃ before block after, Block p c args before block after := by
  obtain ⟨before, after, hpages⟩ := List.append_of_mem (Project.pages_eq hc ▸ h.mem)
  obtain ⟨n, hn⟩ := Nat.exists_eq_add_of_lt hcount
  rw [Nat.zero_add] at hn
  refine ⟨before, (page :: after).take (count args), (page :: after).drop (count args), ?_, ?_, ?_⟩
  · rw [hpages, List.append_assoc, List.take_append_drop]
  · exact ⟨page, by rw [hn, List.take_succ_cons]; rfl, h⟩
  · rw [hpages, List.length_take, List.length_append, Nat.add_sub_cancel_left]

/-- The command finds the block by the place of its first page. -/
theorem Block.found (h : Block p c args before block after) (hids : Distinct p.pageIds)
    (hc : p.composition = some c) : ∃ page, target p [args.nonempty? "id"] = .ok page ∧
      Collection.pages.require p page.id = .ok (before.length, page) ∧
      (c.pages.drop before.length).take (count args) = block ∧ block ≠ [] := by
  obtain ⟨page, hpage, hmeans⟩ := h.start
  obtain ⟨rest, rfl⟩ := List.head?_eq_some_iff.mp hpage
  have hpages : c.pages = before ++ page :: (rest ++ after) := by simp [h.pages]
  refine ⟨page, (target_eq_ok_iff hids hc).mpr hmeans, require_split hids hc hpages, ?_,
    List.cons_ne_nil _ _⟩
  have hlength := h.length
  rw [h.pages, List.append_assoc, List.drop_left]
  rw [h.pages, List.append_assoc, List.length_append, Nat.add_sub_cancel_left] at hlength
  rw [List.take_eq_take_min, ← hlength, List.take_left]

end Line

/-! ## The command -/

section Command
variable {ctx : Context} {args : Arguments}

theorem delete_block (hreads : ctx.Reads deleteGrammar p c args) (hids : Distinct p.pageIds)
    (hblock : Block p c args before block after) (hremain : before ++ after ≠ []) :
    ∃ o q, delete ctx = .ok o ∧ o.success = true ∧ o.revised = some q ∧
      Deletes p c before block after q := by
  have hrequire := Context.require_eq_ok.mpr ⟨hreads.project, hreads.composition⟩
  obtain ⟨page, htarget, hplace, hdoomed, hne⟩ := hblock.found hids hreads.composition
  have hlt : ¬ c.pages.length ≤ block.length := by
    have hpos := List.length_pos_iff.mpr hremain
    rw [hblock.pages]
    simp only [List.length_append] at hpos ⊢
    omega
  obtain ⟨q, hq, hdeletes⟩ := without_block hids hreads.composition hblock.pages hne hremain
  obtain ⟨selected, hselected⟩ : ∃ selected, q.selectedPage? = some selected := by
    refine Project.selectedPage?_isSome ?_
    rw [hdeletes.fields]
    exact hremain
  unfold delete
  simp only [hrequire, hreads.args, htarget, hplace, hdoomed, if_neg hlt, hq, hselected, bind,
    Except.bind, pure, Except.pure]
  exact ⟨_, q, rfl, rfl, rfl, hdeletes⟩

/-- A deletion that comes to its end had no reason to be refused. -/
theorem not_undeletable {o : Outcome} (hp : ctx.project = some p) (hids : Distinct p.pageIds)
    (h : delete ctx = .ok o) : ¬ Undeletable p ctx.args := by
  have heffect := delete_effect h
  generalize hname : "del-page" = name at heffect
  cases heffect with
  | @deletePages _ _ _ args _ _ _ _ hreads htarget hplace hlt =>
      cases hp.symm.trans hreads.project
      have hargs : deleteGrammar.parse ctx.args (.int p.fps) = .ok args := by
        rw [← hreads.args, Context.parse_of_project hp]
      rintro (hnone | hbad | ⟨hargs', hmissing⟩ | ⟨hc, hargs', hblock⟩)
      · cases hnone.symm.trans hreads.composition
      · cases hbad.symm.trans hargs
      · cases hargs.symm.trans hargs'
        exact hmissing _ ((target_eq_ok_iff hids hreads.composition).mp htarget)
      · cases hc.symm.trans hreads.composition
        cases hargs.symm.trans hargs'
        obtain ⟨page, htarget', hplace', hdoomed, -⟩ := hblock.found hids hreads.composition
        cases htarget.symm.trans htarget'
        cases hplace.symm.trans hplace'
        rw [hdoomed, hblock.pages] at hlt
        simp at hlt
  | createElement hr =>
      have hother : "del-page" ∉ ["new-text", "new-image", "new-video"] := by decide
      exact absurd (hname ▸ Elements.command_mem hr) hother
  | _ => exact absurd hname (by decide)

/-- A line that has no reason to be refused means a block of pages, with others around it. -/
theorem exists_block_of_not {tokens : List String} (h : ¬ Undeletable p tokens) :
    ∃ c args before block after, p.composition = some c ∧
      deleteGrammar.parse tokens (.int p.fps) = .ok args ∧ Block p c args before block after ∧
      before ++ after ≠ [] := by
  cases hc : p.composition with
  | none => exact absurd (.composition hc) h
  | some c =>
      cases hargs : deleteGrammar.parse tokens (.int p.fps) with
      | error f => exact absurd (.options hargs) h
      | ok args =>
          obtain ⟨page, hpage⟩ : ∃ page, Means p (args.nonempty? "id") page := by
            by_contra hnone
            exact h (.page hargs fun page hpage => hnone ⟨page, hpage⟩)
          obtain ⟨before, block, after, hblock⟩ := hpage.exists_block hc (count_pos hargs)
          refine ⟨c, args, before, block, after, rfl, rfl, hblock, fun hnil => ?_⟩
          obtain ⟨rfl, rfl⟩ := List.append_eq_nil_iff.mp hnil
          exact h (.all hc hargs hblock)

end Command

end Pages

/-! ## The line -/

/-- A line that deletes pages succeeds if and only if it may run, there is a composition, the
options are valid, a page is meant and a page remains; if it does not, the project stays as it is.
If it does, the pages around the block that is meant remain, and the selected page is the same one
as before or, if it was in the block, the page behind the block or else the last one. -/
theorem Session.answer_deletes_pages {p : Project} (hids : Distinct p.pageIds) (ids : IdSource)
    (collaborators : Collaborators) {line : String} {tokens : List String}
    (hcalls : Calls line Builtin.pages[2] tokens) (j : Journal) :
    let o := answer ids collaborators (some p) line j
    (o.success = true ↔ Builtin.pages[2].Allowed (context ids collaborators (some p) tokens) ∧
      ¬ Pages.Undeletable p tokens) ∧
    (o.success = false → o.revised = none) ∧
    (o.success = true → ∃ c args before block after q, p.composition = some c ∧
      Pages.deleteGrammar.parse tokens (.int p.fps) = .ok args ∧
      Pages.Block p c args before block after ∧ before ++ after ≠ [] ∧
      o.revised = some q ∧ Pages.Deletes p c before block after q) := by
  intro o
  have hdone (hallowed : Builtin.pages[2].Allowed (context ids collaborators (some p) tokens))
      (h : ¬ Pages.Undeletable p tokens) : o.success = true ∧ ∃ c args before block after q,
        p.composition = some c ∧ Pages.deleteGrammar.parse tokens (.int p.fps) = .ok args ∧
        Pages.Block p c args before block after ∧ before ++ after ≠ [] ∧
        o.revised = some q ∧ Pages.Deletes p c before block after q := by
    obtain ⟨c, args, before, block, after, hc, hargs, hblock, hremain⟩ :=
      Pages.exists_block_of_not h
    have hreads : (context ids collaborators (some p) tokens).Reads Pages.deleteGrammar p c args :=
      ⟨rfl, hc, hargs⟩
    obtain ⟨o', q, ho', hsuccess, hrevised, hdeletes⟩ :=
      Pages.delete_block hreads hids hblock hremain
    have ho : o = o' := by
      have hanswer := answer_of_allowed (j := j) hcalls hallowed rfl
      rwa [ho'] at hanswer
    rw [ho]
    exact ⟨hsuccess, c, args, before, block, after, q, hc, hargs, hblock, hremain, hrevised,
      hdeletes⟩
  rcases answer_ran ids collaborators (some p) line j with
    hrefuses | ⟨command, tokens', hcalls', hallowed, t, j', hyields⟩
  · have hfail : o.success = false := hrefuses.success
    have hnot : o.success ≠ true := Bool.eq_false_iff.mp hfail
    exact ⟨iff_of_false hnot fun h => hnot (hdone h.1 h.2).1, fun _ => hrefuses.revised,
      fun hsuccess => absurd hsuccess hnot⟩
  · obtain ⟨rfl, rfl⟩ := hcalls.unique hcalls'
    have hok := Pages.not_undeletable rfl hids (yields_lift.mp hyields).1
    obtain ⟨hsuccess, hrest⟩ := hdone hallowed hok
    refine ⟨iff_of_true hsuccess ⟨hallowed, hok⟩, fun hfail => ?_, fun _ => hrest⟩
    cases hfail.symm.trans hsuccess

/-- No page is selected by its id: the first one is deleted, and the second one is selected. -/
theorem Session.fallback_page_deleted :
    let o := answer .counting {} (some twoPages) "/del-page --yes" {}
    Distinct twoPages.pageIds ∧ o.success = true ∧ ∃ c args before block after q,
      Pages.Block twoPages c args before block after ∧ o.revised = some q ∧
      Pages.Deletes twoPages c before block after q ∧ q.pages.map (·.name.display) = ["b"] ∧
      q.appState.selectedPageId.display = "b" := by
  intro o
  have hids : Distinct twoPages.pageIds := ⟨by decide, by simp [Project.pageIds, twoPages,
    Project.pages]⟩
  have hcalls : Calls "/del-page --yes" Builtin.pages[2] ["--yes"] :=
    ⟨"del-page", by decide +kernel, rfl⟩
  have hsuccess : o.success = true := by decide +kernel
  have hleft : o.revised.map (fun q => (q.pages.map (·.name.display),
      q.appState.selectedPageId.display)) = some (["b"], "b") := by decide +kernel
  obtain ⟨-, -, hdeleted⟩ := answer_deletes_pages hids .counting {} hcalls {}
  obtain ⟨c, args, before, block, after, q, -, -, hblock, -, hq, hdeletes⟩ := hdeleted hsuccess
  have hq : o.revised = some q := hq
  rw [hq, Option.map_some] at hleft
  obtain ⟨hpages, hselected⟩ := Prod.mk.inj (Option.some.inj hleft)
  exact ⟨hids, hsuccess, c, args, before, block, after, q, hblock, hq, hdeletes, hpages, hselected⟩

end Montage
