/-
# A changed project has another document

A command answers with a changed project, or with none if it finds that nothing
changes, and each command finds this out in its own way.  None of them takes a project
for changed whose document agrees with the one before (`differs_of_revised`):

    items come or go          the list has another length
    a field is set            the document tells the field, and it held another value
    an item is moved          an item with another id stands in its place
    a page gets a new id      no page had this id
    title, numbers, zoom      the document tells them

This takes ids that tell the items apart: two equal items may change places, and no
document shows it.  And it takes unknown entries that hide no known one, as they are in
every project from a document and after every line.
-/
import Montage.Proofs.Agree
import Montage.Proofs.Host

namespace Montage

/-! ## Settled changes -/

/-- Fields that a document does not tell as the reports do. -/
def Entity.untold : List String := ["elements", "type", "extra"]

/-- Changes as a line gives them: definite values, one for each name, of fields that documents
tell. -/
structure Changes.Settled (changes : Changes) : Prop where
  definite : ∀ d ∈ changes, d.2.Definite
  once : ∀ d ∈ changes, ∀ d' ∈ changes, d'.1 = d.1 → d'.2 = d.2
  told : ∀ d ∈ changes, d.1 ∉ Entity.untold

namespace Changes

theorem Settled.of_parse {g : Grammar} {tokens : List String} {fps : Number} {args : Arguments}
    (hg : g.Offers) (hfields : ∀ name ∈ g.fields, name ∉ Entity.untold)
    (h : g.parse tokens fps = .ok args) (excluded : List String) :
    Settled (args.except excluded) where
  definite d hd := (hg.of_parse h d (Arguments.mem_of_mem_except hd)).definite
  once _ hd :=
    Grammar.eq_of_mem_except h (Grammar.get?_of_mem h (Arguments.mem_of_mem_except hd))
  told d hd := hfields d.1 (Grammar.mem_fields_of_parse h d (Arguments.mem_of_mem_except hd))

theorem Settled.withId {changes : Changes} (h : Settled changes)
    (hnames : ∀ d ∈ changes, d.1 ≠ "id") (id : String) :
    Settled (changes ++ [("id", .text id)]) where
  definite := by
    simp only [List.forall_mem_append, List.forall_mem_singleton]
    exact ⟨h.definite, .text id⟩
  once := by
    simp only [List.forall_mem_append, List.forall_mem_singleton]
    refine ⟨fun d hd => ⟨h.once d hd, fun hname => absurd hname.symm (hnames d hd)⟩,
      fun d hd hname => absurd hname (hnames d hd), fun _ => trivial⟩
  told := by
    simp only [List.forall_mem_append, List.forall_mem_singleton]
    exact ⟨h.told, by decide⟩

section Merge
variable {α : Type} [Entity α] {x y : α} {fps : Number} {frameFields diff : List String}
  {changes : Changes}

/-- A reported change is of a field that held another value. -/
theorem exists_unheld (h : merge x fps frameFields changes = .ok (y, diff))
    (hdiff : diff ≠ []) : ∃ (f : Entity.Field α) (v : Value),
      (Entity.name f, v) ∈ changes ∧ Entity.holds x f v = false := by
  obtain ⟨es, hes, hnamed, -, rfl⟩ := merge_eq_ok.mp h
  obtain ⟨d, hd⟩ := List.exists_mem_of_ne_nil es fun hnil => hdiff (by rw [hnil]; rfl)
  obtain ⟨f, hf⟩ := Option.isSome_iff_exists.mp (hnamed d hd)
  obtain ⟨hmem, key, old, hlook⟩ := mem_edits_cases hes hd
  refine ⟨f, d.value, Entity.name_of_field? hf ▸ hmem, ?_⟩
  simp only [look, hf, Except.ok.injEq, Prod.mk.injEq] at hlook
  exact hlook.2.2

/-- A merge into an entity whose fields agree with those before reports nothing. -/
theorem diff_eq_nil (hl : Entity.Lawful α) (hchanges : changes.Settled)
    (h : merge x fps frameFields changes = .ok (y, diff))
    (hagree : ∀ (f : Entity.Field α) (v : Value), (Entity.name f, v) ∈ changes →
      (Entity.get x f).Agree (Entity.get y f))
    (hholds : ∀ (f : Entity.Field α) (v : Value), (Entity.name f, v) ∈ changes →
      Entity.holds x f v = (Entity.get x f).same v) : diff = [] := by
  by_contra hdiff
  obtain ⟨f, v, hv, hne⟩ := exists_unheld h hdiff
  have hget : Entity.get y f = v :=
    (merge_get hl h hv (fun d hd hname => hchanges.once _ hv d hd hname) hne).1
  have hfield := hagree f v hv
  rw [hget] at hfield
  rw [hholds f v hv, hfield.same (hchanges.definite _ hv)] at hne
  cases hne

/-- After a merge a field holds what it held, or a value that one of the changes gives. -/
theorem merge_get_cases (hl : Entity.Lawful α)
    (h : merge x fps frameFields changes = .ok (y, diff)) (f : Entity.Field α) :
    Entity.get y f = Entity.get x f ∨ (Entity.name f, Entity.get y f) ∈ changes := by
  refine merge_fields (R := fun f v => v = Entity.get x f ∨ (Entity.name f, v) ∈ changes)
    hl h (fun c hc f hf => .inr ?_) (fun _ => .inl rfl) f
  rw [Entity.name_of_field? hf]
  exact hc

end Merge

end Changes

/-! ## The documents of a collection -/

theorem Value.Agree.written {α : Type} {write : α → Value} {xs ys : List α} {i : Nat} {x y : α}
    (h : Agree (.list (xs.map write)) (.list (ys.map write))) (hx : xs[i]? = some x)
    (hy : ys[i]? = some y) : (write x).Agree (write y) :=
  h.item (by rw [List.getElem?_map, hx]; rfl) (by rw [List.getElem?_map, hy]; rfl)

namespace Document

theorem agree_composition {p q : Project} {c d : Composition} (hp : p.composition = some c)
    (hq : q.composition = some d) (h : (ofProject p).Agree (ofProject q)) :
    (ofComposition c).Agree (ofComposition d) := by
  have hentry : ((p.composition.map ofComposition).getD .null).Agree
      ((q.composition.map ofComposition).getD .null) := h.entry "composition"
  rwa [hp, hq] at hentry

theorem agree_zoomLevel (s t : AppState) (hs : Beside appStateKeys s.extra)
    (ht : Beside appStateKeys t.extra) (h : (ofAppState s).Agree (ofAppState t)) :
    s.zoomLevel.Agree t.zoomLevel := by
  rw [ofAppState_eq hs, ofAppState_eq ht] at h
  exact h.entry "zoomLevel"

theorem agree_elements {page page' : Page} (h : (ofPage page).Agree (ofPage page')) :
    Value.Agree (.list (page.elements.map ofElement)) (.list (page'.elements.map ofElement)) := by
  have hentry : ∀ x : Page, Value.entry
      ([("id", x.id), ("name", x.name), ("duration", x.duration)] ++
        ifPresent "backgroundColor" x.backgroundColor ++
        [("elements", .list (x.elements.map ofElement))]) "elements" =
      .list (x.elements.map ofElement) := by
    rintro ⟨id, name, duration, color, elements, noElements⟩
    cases color <;> rfl
  rw [← hentry page, ← hentry page']
  exact h.entry "elements"

end Document

theorem Element.Field.told {f : Element.Field} (hf : f.name ∉ Entity.untold) :
    f ∈ id :: keyed := by
  revert hf
  cases f <;> decide

namespace Collection

/-- The document of an item. -/
def write : (c : Collection) → c.Item → Value
  | pages => Document.ofPage
  | audios => Document.ofAudio
  | notes => Document.ofNote
  | elements _ => Document.ofElement

/-- The document of the item tells its fields: the unknown entries of an element hide none. -/
def Kept : (c : Collection) → c.Item → Prop
  | pages => fun _ => True
  | audios => fun _ => True
  | notes => fun _ => True
  | elements _ => Element.KeepsExtra

theorem tells (c : Collection) {f : Entity.Field c.Item} (hf : Entity.name f ∉ Entity.untold) :
    Tells c.Kept c.write f := by
  cases c with
  | pages =>
      refine Document.tells_page ?_
      rintro rfl
      exact hf (by decide)
  | audios => exact Document.tells_audio f
  | notes => exact Document.tells_note f
  | elements => exact Document.tells_element (Element.Field.told hf)

theorem exists_idField (c : Collection) : ∃ f : Entity.Field c.Item, Entity.name f = "id" ∧
    ∀ x : c.Item, Entity.get x f = Entity.id x := by
  cases c with
  | pages => exact ⟨Page.Field.id, rfl, fun _ => rfl⟩
  | audios => exact ⟨Audio.Field.id, rfl, fun _ => rfl⟩
  | notes => exact ⟨Note.Field.id, rfl, fun _ => rfl⟩
  | elements => exact ⟨Element.Field.id, rfl, fun _ => rfl⟩

theorem kept_merge {c : Collection} {x y : c.Item} {fps : Number}
    {frameFields diff : List String} {changes : Changes} (hx : c.Kept x)
    (hchanges : changes.Settled) (h : Changes.merge x fps frameFields changes = .ok (y, diff)) :
    c.Kept y := by
  cases c with
  | elements =>
      have hextra : Element.extra y = Element.extra x := by
        refine Changes.merge_keeps Element.setOnlyBy_extra h fun d hd hname => ?_
        exact hchanges.told d hd (List.mem_singleton.mp hname ▸ by decide)
      change Element.KeepsExtra y
      unfold Element.KeepsExtra
      rw [hextra]
      exact hx
  | _ => trivial

/-- The document of a project tells the documents of a collection, whatever else comes with other
items. -/
theorem agree_items {c : Collection} {p : Project} {xs ys : List c.Item} {f : AppState → AppState}
    (hxs : c.items p = .ok xs)
    (h : (Document.ofProject p).Agree (Document.ofProject ((c.replace p ys).withState f))) :
    Value.Agree (.list (xs.map c.write)) (.list (ys.map c.write)) := by
  cases c with
  | pages =>
      obtain ⟨c, hc, rfl⟩ := items_pages.mp hxs
      rw [replace_pages hc] at h
      exact (Document.agree_composition hc rfl h).entry "pages"
  | audios =>
      obtain ⟨c, hc, rfl⟩ := items_audios.mp hxs
      rw [replace_audios hc] at h
      exact (Document.agree_composition hc rfl h).entry "audios"
  | notes =>
      obtain rfl := items_notes.mp hxs
      exact h.entry "notes"
  | elements =>
      obtain ⟨c, before, page, after, hc, hpages, hfirst, rfl⟩ := items_elements.mp hxs
      rw [replace_elements hc hpages hfirst] at h
      have hlist := (Document.agree_composition hc rfl h).entry "pages"
      have hold : c.pages[before.length]? = some page := by simp [hpages]
      have hpage : (Document.ofPage page).Agree (Document.ofPage (page.withElements ys)) :=
        Value.Agree.written hlist hold (by simp)
      exact Document.agree_elements hpage

/-- The project with another number of items has another document. -/
theorem differs_of_length {c : Collection} {p : Project} {xs ys : List c.Item}
    (hxs : c.items p = .ok xs) (hlength : ys.length ≠ xs.length) (f : AppState → AppState) :
    ¬ (Document.ofProject p).Agree (Document.ofProject ((c.replace p ys).withState f)) := by
  intro h
  have heq := (agree_items hxs h).length
  rw [List.length_map, List.length_map] at heq
  exact hlength heq.symm

theorem differs_of_append {c : Collection} {p q : Project} {x : c.Item}
    (h : c.append p x = .ok q) : ¬ (Document.ofProject p).Agree (Document.ofProject q) := by
  obtain ⟨xs, hxs, -, rfl⟩ := append_eq_ok.mp h
  exact differs_of_length hxs (by simp) id

/-- Removing an item that is there leaves fewer. -/
theorem differs_of_remove {c : Collection} {p q : Project} {id : Value} {xs : List c.Item}
    {x : c.Item} (hxs : c.items p = .ok xs) (hx : x ∈ xs) (hid : Entity.hasId x id = true)
    (h : c.remove p [id] = .ok q) (f : AppState → AppState) :
    ¬ (Document.ofProject p).Agree (Document.ofProject (q.withState f)) := by
  obtain ⟨_, hxs', rfl⟩ := remove_eq_ok h
  cases hxs.symm.trans hxs'
  refine differs_of_length hxs (Nat.ne_of_lt ?_) f
  exact List.length_filter_lt_length_iff_exists.mpr ⟨x, hx, by simp [hid]⟩

/-! ## Updates -/

theorem getElem?_moveItem {α : Type} {xs ys : List α} {i k : Nat} {t : Int} {x : α}
    (h : moveItem xs i t = .ok (ys, k)) (hx : xs[i]? = some x) : ys[k]? = some x := by
  unfold moveItem at h
  rw [hx] at h
  cases h
  have hclamp : clampTo (xs.eraseIdx i).length t ≤ (xs.eraseIdx i).length := by
    unfold clampTo; omega
  rw [List.getElem?_insertIdx_self, if_pos hclamp]

theorem getElem?_arrange {α : Type} {xs ys : List α} {i k : Nat} {t : Option Int} {x : α}
    (h : arrange xs i t = .ok (ys, k)) (hx : xs[i]? = some x) : ys[k]? = some x := by
  cases t with
  | none =>
      cases h
      exact hx
  | some t => exact getElem?_moveItem h hx

/-- Where the documents of two lists agree, an item with the id of a former one stands in its
place. -/
theorem place_eq_of_agree {c : Collection} {xs ys : List c.Item} {i k : Nat} {x y : c.Item}
    (hids : Distinct (xs.map Entity.id)) (hkept : ∀ a ∈ xs, c.Kept a) (hy : c.Kept y)
    (hx : xs[i]? = some x) (hyk : ys[k]? = some y)
    (hid : Entity.id y = Entity.id x ∨ Entity.id y ∉ xs.map Entity.id)
    (h : Value.Agree (.list (xs.map c.write)) (.list (ys.map c.write))) : k = i := by
  obtain ⟨f, hname, hget⟩ := c.exists_idField
  have hlength : xs.length = ys.length := by simpa using h.length
  obtain ⟨hk, -⟩ := List.getElem?_eq_some_iff.mp hyk
  have hxk : xs[k]? = some xs[k] := List.getElem?_eq_getElem (hlength ▸ hk)
  have hmem := List.mem_of_getElem? hxk
  have htold : Entity.name f ∉ Entity.untold := by
    rw [hname]
    decide
  have hagree := (c.tells htold).agree xs[k] y (hkept _ hmem) hy (h.written hxk hyk)
  have htext : (Entity.id xs[k]).IsText := hids.texts _ (List.mem_map_of_mem hmem)
  have hsame : Entity.id xs[k] = Entity.id y := by
    rw [hget, hget] at hagree
    exact hagree.eq_of_isText' htext
  have hidx : Entity.id y = Entity.id x :=
    hid.resolve_right fun hnew => hnew (hsame ▸ List.mem_map_of_mem hmem)
  refine (List.getElem?_inj (by simpa using hlength ▸ hk) hids.nodup).mp ?_
  rw [List.getElem?_map, List.getElem?_map, hxk, hx, Option.map_some, Option.map_some, hsame, hidx]

/-- An update that gives a project gives one with another document. -/
theorem differs_of_update {c : Collection} {p r : Project} {xs : List c.Item} {id : Value}
    {changes : Changes} {fps : Number} {frameFields : List String} {move : Option Move}
    {mode : MoveMode} {u : Update c.Item} (hxs : c.items p = .ok xs)
    (hids : Distinct (xs.map Entity.id)) (hkept : ∀ x ∈ xs, c.Kept x) (hchanges : changes.Settled)
    (hfree : ∀ d ∈ changes, d.1 = "id" → d.2 ∉ xs.map Entity.id)
    (hu : c.update p id changes fps frameFields move mode = .ok u) (hr : u.revised = some r)
    (f : AppState → AppState) :
    ¬ (Document.ofProject p).Agree (Document.ofProject (r.withState f)) := by
  obtain ⟨before, x, after, y, diff, t, ys, k, hxs', -, -, hmerge, hys, rfl⟩ := update_eq_ok.mp hu
  cases hxs.symm.trans hxs'
  split at hr
  · cases hr
  rename_i hchanged
  cases hr
  refine fun h => hchanged ?_
  have hagree := agree_items hxs h
  have hx : (before ++ x :: after)[before.length]? = some x := by simp
  have hy : ys[k]? = some y := getElem?_arrange hys (by simp)
  have hkeptx := hkept x (by simp)
  have hkepty := kept_merge hkeptx hchanges hmerge
  obtain ⟨f, hname, hget⟩ := c.exists_idField
  have hid := Changes.merge_get_cases c.lawful hmerge f
  rw [hget, hget, hname] at hid
  have hplace := place_eq_of_agree hids hkept hkepty hx hy
    (hid.imp_right fun hmem => hfree _ hmem rfl) hagree
  have hwritten : (c.write x).Agree (c.write y) := hagree.written hx (hplace ▸ hy)
  have hdiff : diff = [] :=
    Changes.diff_eq_nil c.lawful hchanges hmerge
      (fun f v hv => (c.tells (hchanges.told _ hv)).agree x y hkeptx hkepty hwritten)
      fun f v hv => (c.tells (hchanges.told _ hv)).holds x v
  simp [hdiff, hplace]

end Collection

/-! ## Ids and unknown entries -/

/-- The ids of the pages, of the audio tracks, of the notes and of the elements are texts and tell
them apart. -/
structure Project.DistinctIds (p : Project) : Prop where
  pages : Distinct p.pageIds
  audios : Distinct p.audioIds
  notes : Distinct p.noteIds
  elements : Distinct p.elementIds

section Items
variable {p : Project} {c : Collection} {xs : List c.Item}

theorem Project.DistinctIds.textIds (h : p.DistinctIds) : p.TextIds :=
  ⟨h.pages.texts, h.elements.texts, h.audios.texts, h.notes.texts⟩

theorem Project.DistinctIds.items (h : p.DistinctIds) (hxs : c.items p = .ok xs) :
    Distinct (xs.map Entity.id) := by
  cases c with
  | pages =>
      obtain ⟨c, hc, rfl⟩ := Collection.items_pages.mp hxs
      have hids := h.pages
      unfold pageIds at hids
      rwa [pages_eq hc] at hids
  | audios =>
      obtain ⟨c, hc, rfl⟩ := Collection.items_audios.mp hxs
      have hids := h.audios
      unfold audioIds at hids
      rwa [hc] at hids
  | notes =>
      obtain rfl := Collection.items_notes.mp hxs
      exact h.notes
  | elements =>
      obtain ⟨c, before, page, after, hc, hpages, -, rfl⟩ := Collection.items_elements.mp hxs
      have hids := h.elements
      unfold elementIds at hids
      rw [pages_eq hc, List.flatMap_def] at hids
      refine hids.sublist (List.sublist_flatten_of_mem ?_)
      exact List.mem_map.mpr ⟨page, by rw [hpages]; simp, rfl⟩

theorem Project.KeepsExtra.items (h : p.KeepsExtra) (hxs : c.items p = .ok xs) :
    ∀ x ∈ xs, c.Kept x := by
  cases c with
  | elements =>
      obtain ⟨c, before, page, after, hc, hpages, -, rfl⟩ := Collection.items_elements.mp hxs
      exact h.elements page (by rw [pages_eq hc, hpages]; simp)
  | _ => exact fun _ _ => trivial

end Items

/-! ## Commands -/

section Commands
variable {ctx : Context} {p q r : Project} {c : Composition} {args : Arguments}

/-- A changed item, reported as such. -/
theorem revised_of_changed {α : Type} {u : Update α} {revised : Option Project}
    (h : (if u.changed then revised else none) = some q) : revised = some q := by
  split at h
  · exact h
  · cases h

/-- A line that changes fields, but no id, and moves the item. -/
theorem Collection.differs_of_options {c : Collection} {xs : List c.Item} {g : Grammar}
    {tokens excluded : List String} {id : Value} {fps fps' : Number} {frameFields : List String}
    {move : Option Move} {mode : MoveMode} {u : Update c.Item} (hids : p.DistinctIds)
    (hextra : p.KeepsExtra) (hg : g.Offers) (hfields : ∀ name ∈ g.fields, name ∉ Entity.untold)
    (hid : "id" ∈ excluded) (hargs : g.parse tokens fps' = .ok args) (hxs : c.items p = .ok xs)
    (hu : c.update p id (args.except excluded) fps frameFields move mode = .ok u)
    (hq : u.revised = some q) : ¬ (Document.ofProject p).Agree (Document.ofProject q) :=
  differs_of_update hxs (hids.items hxs) (hextra.items hxs) (.of_parse hg hfields hargs _)
    (fun _ hd hname => absurd hname (Arguments.ne_of_mem_except hd hid)) hu hq fun s => s

/-- The item with the given id goes. -/
theorem Collection.differs_of_delete {c : Collection} {id : String} {i : Nat} {x : c.Item}
    (hx : c.require p (.text id) = .ok (i, x)) (hq : c.remove p [Entity.id x] = .ok q) :
    ¬ (Document.ofProject p).Agree (Document.ofProject q) := by
  obtain ⟨before, after, hxs, -, hfirst⟩ := require_eq_ok.mp hx
  have hid : Entity.id x = .text id := (hasId_iff (Value.isText_text id)).mp hfirst.hasId
  rw [hid] at hq
  exact differs_of_remove hxs (by simp) hfirst.hasId hq fun s => s

theorem Elements.delete_differs {aim pageId : Value} {e : Element} (hids : p.DistinctIds)
    (he : locate p aim = .ok (pageId, e))
    (hq : (Collection.elements pageId).remove p [aim] = .ok q) :
    ¬ (Document.ofProject p).Agree (Document.ofProject
      (if p.appState.selectedElementId.same aim then withoutSelection q else q)) := by
  obtain ⟨haim, -, _, _, page, _, -, -, -, ⟨d, hd, hid⟩, hxs, -⟩ := Project.located hids.textIds he
  have hgone := Collection.differs_of_remove hxs hd ((hasId_iff haim).mpr hid) hq
  split
  · exact hgone fun s => { s with selectedElementId := .null }
  · exact hgone fun s => s

theorem Notes.change_differs {id : Value} {fps : Number} {frameFields : List String}
    {mode : MoveMode} {now : String} {u v : Update Note}
    (hreads : ctx.Reads changeGrammar p c args)
    (hu : Collection.notes.update p id (args.except ["id"]) fps frameFields none mode = .ok u)
    (hv : stamp now u = .ok v) (hq : (if v.changed then v.revised else none) = some q) :
    ¬ (Document.ofProject p).Agree (Document.ofProject q) := by
  obtain ⟨before, x, after, hnotes, -, ⟨-, hunchanged⟩ | ⟨diff, hmerge, hdiff, -, hrevised⟩⟩ :=
    stamp_cases hu hv
  · rw [hunchanged] at hq
    cases hq
  cases hrevised.symm.trans (revised_of_changed hq)
  intro h
  have hlist : Value.Agree (.list (p.notes.map Document.ofNote)) (.list
      ((before ++ { v.item with updatedAt := .text now } :: after).map Document.ofNote)) :=
    h.entry "notes"
  have hsettled : Changes.Settled (args.except ["id"]) :=
    .of_parse changeGrammar_offers (by decide) hreads.args _
  have hold : p.notes[before.length]? = some x := by simp [hnotes]
  have hwritten : (Document.ofNote x).Agree
      (Document.ofNote { v.item with updatedAt := .text now }) :=
    Value.Agree.written hlist hold (by simp)
  refine hdiff (Changes.diff_eq_nil Note.lawful hsettled hmerge (fun f w hw => ?_) fun _ _ _ => rfl)
  have hfield := (Document.tells_note f).agree x _ trivial trivial hwritten
  -- the command does not set the time of the change, and the stamp sets nothing else
  have hname := Grammar.mem_fields_of_parse hreads.args _ (Arguments.mem_of_mem_except hw)
  cases f with
  | updatedAt => exact absurd hname (by decide : "updated_at" ∉ changeGrammar.fields)
  | _ => exact hfield

theorem Pages.create_differs {i : Int} {page : Page} {pages : List Page}
    (hq : Collection.pages.insert p i (page :: pages) = .ok q) :
    ¬ (Document.ofProject p).Agree (Document.ofProject (withSelected q page.id)) := by
  obtain ⟨xs, hxs, rfl⟩ := Collection.insert_eq_ok.mp hq
  refine Collection.differs_of_length hxs ?_ _
  simp only [List.length_append, List.length_take, List.length_drop, List.length_cons]
  omega

theorem Pages.change_differs {page : Page} {newId : Option String} {fps : Number}
    {frameFields : List String} {move : Option Move} {mode : MoveMode} {u : Update Page}
    {followed : Option Project} (hids : p.DistinctIds) (hextra : p.KeepsExtra)
    (hreads : ctx.Reads changeGrammar p c args)
    (hfollowed : followed = match newId with
      | some id => u.revised.map (reselect page.id id)
      | none => u.revised)
    (hnewId : newId? p page args = .ok newId)
    (hu : Collection.pages.update p page.id
      (args.except ["target", "id", "new_id", "before", "after"] ++
        (newId.map fun id => ("id", Value.text id)).toList) fps frameFields move mode = .ok u)
    (hq : followed = some q) :
    ¬ (Document.ofProject p).Agree (Document.ofProject q) := by
  have hxs := Collection.items_pages.mpr ⟨c, hreads.composition, rfl⟩
  have hsettled : Changes.Settled
      (args.except ["target", "id", "new_id", "before", "after"]) :=
    .of_parse changeGrammar_offers (by decide) hreads.args _
  have hnames : ∀ d ∈ args.except ["target", "id", "new_id", "before", "after"], d.1 ≠ "id" :=
    fun d hd => Arguments.ne_of_mem_except hd (by decide)
  subst hfollowed
  cases newId with
  | none =>
      rw [Option.map_none, Option.toList_none, List.append_nil] at hu
      exact Collection.differs_of_options hids hextra changeGrammar_offers (by decide) (by decide)
        hreads.args hxs hu hq
  | some id =>
      obtain ⟨r, hr, rfl⟩ := Option.map_eq_some_iff.mp hq
      rw [reselect_eq]
      refine Collection.differs_of_update hxs (hids.items hxs) (hextra.items hxs)
        (hsettled.withId hnames id) ?_ hu hr _
      intro d hd hname
      rcases List.mem_append.mp hd with hd | hd
      · exact absurd hname (hnames d hd)
      · obtain rfl := List.mem_singleton.mp hd
        rw [← Project.pages_eq hreads.composition]
        exact not_mem_ids (Value.isText_text id) (newId?_eq_some hnewId).2

theorem Pages.delete_differs {page found : Page} {place : Nat} (hids : p.DistinctIds)
    (hreads : ctx.Reads deleteGrammar p c args)
    (hfound : Collection.pages.require p page.id = .ok (place, found))
    (hq : without p place (((c.pages.drop place).take (count args)).map (·.id)) = .ok q) :
    ¬ (Document.ofProject p).Agree (Document.ofProject q) := by
  have hc := hreads.composition
  obtain ⟨before, after, hxs, rfl, -⟩ := Collection.require_eq_ok.mp hfound
  obtain ⟨c', hc', hpages⟩ := Collection.items_pages.mp hxs
  cases hc.symm.trans hc'
  -- the page found is the first of those that go
  have hgoes : found ∈ (c.pages.drop before.length).take (count args) := by
    obtain ⟨n, hn⟩ := Nat.exists_eq_add_of_lt (count_pos hreads.args)
    rw [hpages, List.drop_left, hn, Nat.zero_add, List.take_succ_cons]
    exact List.mem_cons_self
  generalize (c.pages.drop before.length).take (count args) = doomed at hq hgoes
  have hid : (Entity.id found).IsText := hids.textIds.page hc (by rw [hpages]; simp)
  have hdoomed : (doomed.map (·.id)).any (Entity.hasId found) = true :=
    List.any_eq_true.mpr ⟨_, List.mem_map_of_mem hgoes, (hasId_iff' hid).mpr rfl⟩
  have hfewer : (c.pages.filter fun page => !(doomed.map (·.id)).any (Entity.hasId page)).length ≠
      (before ++ found :: after).length := by
    rw [← hpages]
    refine Nat.ne_of_lt (List.length_filter_lt_length_iff_exists.mpr ⟨found, ?_, ?_⟩)
    · rw [hpages]
      simp
    · rw [hdoomed]
      decide
  obtain ⟨pages, rfl, ⟨rfl, -⟩ | ⟨selected, -, rfl⟩⟩ := without_eq_ok hc hq
  · exact Collection.differs_of_length hxs hfewer fun s => s
  · exact Collection.differs_of_length hxs hfewer _

theorem Settings.titleChange_eq_nil {name : Value}
    (h : name.Agree ((args.get? "title").getD name)) :
    titleChange name (args.text? "title") = [] := by
  unfold titleChange
  cases htitle : args.text? "title" with
  | none => rfl
  | some t =>
      have hget : args.get? "title" = some (.text t) := Arguments.get?_of_text? htitle
      rw [hget] at h
      obtain rfl : name = .text t := h.eq_of_isText (Value.isText_text t)
      exact if_pos (Value.isText_iff.mpr rfl)

theorem Settings.numberChange_eq_nil {old : Int} {new : Option Int} (label unit : String)
    (h : (Value.int old).Agree (.int (new.getD old))) : numberChange label unit old new = [] := by
  cases new with
  | none => rfl
  | some n => exact if_pos h.eq_of_int.symm

theorem Settings.change_differs (hc : p.composition = some c)
    (hlines : (changeLines p c args).isEmpty = false) :
    ¬ (Document.ofProject p).Agree (Document.ofProject (changed p c args)) := by
  intro h
  have hsettings := Document.agree_composition hc rfl h
  have htitle : titleChange p.name _ = [] := titleChange_eq_nil (h.entry "name")
  have hfps : numberChange _ _ c.fps _ = [] := numberChange_eq_nil "FPS" "" (hsettings.entry "fps")
  have hwidth : numberChange _ _ c.width _ = [] :=
    numberChange_eq_nil "Width" "px" (hsettings.entry "width")
  have hheight : numberChange _ _ c.height _ = [] :=
    numberChange_eq_nil "Height" "px" (hsettings.entry "height")
  have hnone : changeLines p c args = [] := by
    rw [changeLines, htitle, hfps, hwidth, hheight]
    rfl
  rw [hnone] at hlines
  cases hlines

theorem Number.nan_le (a : Number) : (float .nan).le a = false := by
  cases a <;> rfl

theorem Settings.level_definite {x : Binary64} (hx : x ≠ .nan) :
    (Value.float ((clampPercentage x).div (Binary64.ofInt 100))).Definite := by
  refine .float fun hnan => ?_
  obtain ⟨a, ha, -, hhigh⟩ := level_between hx
  rw [hnan] at ha
  cases ha
  rw [Number.nan_le] at hhigh
  cases hhigh

theorem Settings.zoom_differs {level : Value} (hlevel : level.Definite) (hextra : p.KeepsExtra)
    (hne : p.appState.zoomLevel.same level = false) :
    ¬ (Document.ofProject p).Agree
      (Document.ofProject (p.withState fun s => { s with zoomLevel := level })) := by
  intro h
  have hstate : (Document.ofAppState p.appState).Agree
      (Document.ofAppState { p.appState with zoomLevel := level }) := h.entry "appState"
  have hzoom : p.appState.zoomLevel.Agree level :=
    Document.agree_zoomLevel p.appState { p.appState with zoomLevel := level } hextra.state
      hextra.state hstate
  rw [hzoom.same hlevel] at hne
  cases hne

/-- A command that gives a project gives one with another document. -/
theorem Effect.differs {name : String} {o : Outcome} (h : Effect ctx name o)
    (hp : ctx.project = some p) (hids : p.DistinctIds) (hextra : p.KeepsExtra)
    (hq : o.revised = some q) : ¬ (Document.ofProject p).Agree (Document.ofProject q) := by
  cases h with
  | createTrack hreads _ _ _ happend ho =>
      cases hreads.project.symm.trans hp
      cases ho.revised.symm.trans hq
      exact Collection.differs_of_append happend
  | changeTrack hreads _ _ hu ho =>
      cases hreads.project.symm.trans hp
      rw [ho.revised] at hq
      exact Collection.differs_of_options hids hextra Tracks.changeGrammar_offers (by decide)
        (by decide) hreads.args (Collection.items_audios.mpr ⟨_, hreads.composition, rfl⟩) hu
        (revised_of_changed hq)
  | deleteTrack hreads _ ha hremove ho =>
      cases hreads.project.symm.trans hp
      cases ho.revised.symm.trans hq
      exact Collection.differs_of_delete (c := .audios) ha hremove
  | createElement _ hreads _ _ _ happend ho =>
      cases hreads.project.symm.trans hp
      cases ho.revised.symm.trans hq
      exact Collection.differs_of_append happend
  | changeElement hreads _ _ he _ hu ho =>
      cases hreads.project.symm.trans hp
      rw [ho.revised] at hq
      obtain ⟨-, -, _, _, _, _, -, -, -, -, hxs, -⟩ := Project.located hids.textIds he
      exact Collection.differs_of_options hids hextra Elements.changeGrammar_offers (by decide)
        (by decide) hreads.args hxs hu (revised_of_changed hq)
  | deleteElement hreads _ he hremove ho =>
      cases hreads.project.symm.trans hp
      cases ho.revised.symm.trans hq
      exact Elements.delete_differs hids he hremove
  | createNote hreads _ _ happend ho =>
      cases hreads.project.symm.trans hp
      cases ho.revised.symm.trans hq
      exact Collection.differs_of_append happend
  | changeNote hreads _ hu hv ho =>
      cases hreads.project.symm.trans hp
      rw [ho.revised] at hq
      exact Notes.change_differs hreads hu hv hq
  | deleteNote hreads _ hnote hremove ho =>
      cases hreads.project.symm.trans hp
      cases ho.revised.symm.trans hq
      exact Collection.differs_of_delete (c := .notes) hnote hremove
  | createPages hreads _ _ hinsert ho =>
      cases hreads.project.symm.trans hp
      cases ho.revised.symm.trans hq
      exact Pages.create_differs hinsert
  | changePage hreads _ _ hnewId hu ho =>
      cases hreads.project.symm.trans hp
      rw [ho.revised] at hq
      exact Pages.change_differs hids hextra hreads rfl hnewId hu (revised_of_changed hq)
  | deletePages hreads _ hfound _ hwithout ho =>
      cases hreads.project.symm.trans hp
      cases ho.revised.symm.trans hq
      exact Pages.delete_differs hids hreads hfound hwithout
  | changeComposition hreads ho =>
      cases hreads.project.symm.trans hp
      rw [ho.revised] at hq
      split at hq
      · cases hq
      · rename_i hlines
        cases hq
        exact Settings.change_differs hreads.composition (Bool.eq_false_iff.mpr hlines)
  | zoom hreads hx hlevel ho =>
      cases hreads.project.symm.trans hp
      rw [ho.revised] at hq
      split at hq
      · cases hq
      · rename_i hne
        cases hq
        subst hlevel
        exact Settings.zoom_differs
          (Settings.level_definite (Settings.requirePercentage_ne_nan hx)) hextra
          (Bool.eq_false_iff.mpr hne)
  | listNotes _ _ ho | listFiles _ ho | listCommands _ ho | displayPage _ _ _ ho
  | displayComposition _ ho =>
      rw [ho.revised] at hq
      cases hq

end Commands

/-! ## Lines -/

theorem Session.answer_differs (ids : IdSource) (collaborators : Collaborators) {p q : Project}
    (hids : p.DistinctIds) (hextra : p.KeepsExtra) (line : String) (j : Journal)
    (hq : (answer ids collaborators (some p) line j).revised = some q) :
    ¬ (Document.ofProject p).Agree (Document.ofProject q) := by
  rcases answer_cases ids collaborators (some p) line j with hrefuses | ⟨_, _, -, -, heffect⟩
  · cases hrefuses.revised.symm.trans hq
  · exact heffect.differs rfl hids hextra hq

theorem Leads.keepsExtra {p q : Project} (h : Leads p q) (hp : p.KeepsExtra) : q.KeepsExtra := by
  obtain ⟨_, _, horigin⟩ := h.origin
  exact horigin.keepsExtra hp

namespace Host

variable {h : Host} {w : World} {args : List (String × Value)} {path : Path} {project : Project}
  {line : String}

theorem writable_of_opened (hopened : h.opened w args = .ok (path, project, line)) :
    project.Writable := by
  unfold opened at hopened
  simp only [bind_eq_ok, pure_eq_ok, Prod.exists, Prod.mk.injEq] at hopened
  obtain ⟨_, -, _, _, -, _, hload, _, -, -, rfl, -⟩ := hopened
  exact Document.writable_of_load hload

/-- A call that writes to a file saves a project with another document. -/
theorem saves_another (hcatalog : h.session.catalog = Builtin.catalog)
    (hopened : h.opened w args = .ok (path, project, line)) (hids : project.DistinctIds)
    (hfiles : ((h.call "run_command" args).run w).2.files ≠ w.files) :
    ∃ q s, Document.fileText q = .ok s ∧
      w.files.Rewrites ((h.call "run_command" args).run w).2.files path s ∧
      (Document.ofProject project).same (Document.ofProject q) = false := by
  have hhandled : ∀ project line, (h.outcome w args project line).success = true →
      (h.outcome w args project line).handled = true := handled_of_success hcatalog
  rw [filesAfter_call, filesAfter_perform, if_pos rfl] at hfiles ⊢
  by_cases hrevises : ∃ p q, h.Revises w args p q
  · obtain ⟨p, q, hr⟩ := hrevises
    obtain ⟨project', line', hopened', -, hq⟩ := revises_iff.mp hr
    cases hopened.symm.trans hopened'
    obtain ⟨s, hs, hrewrites⟩ := rewrites_of_revises hcatalog hr
    rw [filesAfter_of_revises hr hhandled]
    refine ⟨q, s, hs, hrewrites, ?_⟩
    have hp := writable_of_opened hopened
    rw [outcome_eq hcatalog] at hq
    have hwritable := Session.answer_writable h.session.ids
      (h.collaborators w.files (entryD args "confirm" (.bool false)).isTruthy) hp line
      { drawn := w.drawn }
    rw [hq, Option.getD_some] at hwritable
    rw [← Bool.not_eq_true]
    intro hsame
    exact Session.answer_differs _ _ hids hp.extra _ _ hq
      (Value.agree_of_same (hp.plain.document hp.extra).keyed
        (hwritable.plain.document hwritable.extra).keyed hsame)
  · exact absurd (filesAfter_of_not_revises (fun p q hr => hrevises ⟨p, q, hr⟩) hhandled) hfiles

end Host

/-- A line that changes a project changes its document, whatever kinds its numbers are of: so a line
that gives what is there already leaves the project as it is.  The ids have to tell the items apart,
and no unknown entry may hide a known one, as none does in a new project, in a project from a
document, and after any line.  A call that writes to the file of such a project saves another
document. -/
theorem differs_of_revised :
    (∀ (ids : IdSource) (collaborators : Collaborators) (p : Project) (line : String)
      (j : Journal) (q : Project), p.DistinctIds → p.KeepsExtra →
      (Session.answer ids collaborators (some p) line j).revised = some q →
      ¬ (Document.ofProject p).Agree (Document.ofProject q)) ∧
    (∀ (v : Value) (p : Project), v.Keyed → Document.project v = .ok p → p.KeepsExtra) ∧
    (∀ (ids : IdSource) (name : Value) (fps width height : Int) (n k : Nat) (p : Project),
      Yields (newProject ids name fps width height) n p k → p.KeepsExtra) ∧
    (∀ p q : Project, p.KeepsExtra → Leads p q → q.KeepsExtra) ∧
    ∀ (h : Host) (w : World) (args : List (String × Value)) (path : Path) (project : Project)
      (line : String), h.session.catalog = Builtin.catalog →
      h.opened w args = .ok (path, project, line) → project.DistinctIds →
      let files := ((h.call "run_command" args).run w).2.files
      files ≠ w.files → ∃ q s, Document.fileText q = .ok s ∧ w.files.Rewrites files path s ∧
        (Document.ofProject project).same (Document.ofProject q) = false := by
  refine ⟨?line, ?document, ?fresh, ?kept, ?host⟩
  case line =>
    intro ids collaborators p line j q hids hextra hq
    exact Session.answer_differs ids collaborators hids hextra line j hq
  case document =>
    intro v p hv hread
    exact (Document.project_storable hread hv).keepsExtra
  case fresh =>
    intro ids name fps width height n k p hnew
    exact newProject_keepsExtra hnew
  case kept =>
    intro p q hp h
    exact h.keepsExtra hp
  case host =>
    intro h w args path project line hcatalog hopened hids files hfiles
    exact Host.saves_another hcatalog hopened hids hfiles

/-- A zoom to another level is told by the document. -/
theorem small_zoomed_differs :
    (Project.small "note").DistinctIds ∧ ∃ q,
      (Session.answer .counting {} (some (.small "note")) "/zoom-tl 50" {}).revised = some q ∧
      ¬ (Document.ofProject (.small "note")).Agree (Document.ofProject q) := by
  have hids : (Project.small "note").DistinctIds :=
    ⟨⟨by decide, List.nodup_singleton _⟩, ⟨by decide, List.nodup_nil⟩,
      ⟨by decide, List.nodup_singleton _⟩, ⟨by decide, List.nodup_singleton _⟩⟩
  have hextra : (Project.small "note").KeepsExtra := by
    refine ⟨fun page hpage e he => ?_, ⟨List.nodup_nil, nofun⟩⟩
    obtain rfl := List.mem_singleton.mp hpage
    obtain rfl := List.mem_singleton.mp he
    exact Elements.keepsExtra_of_empty rfl
  have hsome :
      (Session.answer .counting {} (some (.small "note")) "/zoom-tl 50" {}).revised.isSome =
        true := by decide +kernel
  obtain ⟨q, hq⟩ := Option.isSome_iff_exists.mp hsome
  exact ⟨hids, q, hq, differs_of_revised.1 _ _ _ _ _ _ hids hextra hq⟩

/-- A whole number gives the level that a float gives already: nothing changes. -/
example :
    (Session.answer .counting {} (some (.small "note")) "/zoom-tl 100" {}).revised.isNone =
      true := by decide +kernel

end Montage
