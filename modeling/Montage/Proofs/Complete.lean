/-
# Texts that must be there

A project is complete when every page has an id, every audio track, image and video a
source, and every note a text.  The commands that add such things insist on these
texts.  Four commands write the same fields later on and take whatever text they are
given, the empty one too: `Empties` lists them.  There is no other way to lose a
text: a line makes a complete project incomplete exactly if it succeeds in emptying
one of the four (`answer_complete_iff`).
-/
import Montage.Proofs.Origin

namespace Montage

/-! ## Complete projects -/

/-- The texts that must be there are. -/
structure Project.Complete (p : Project) : Prop where
  pages : ∀ page ∈ p.pages, page.id.IsText ∧ page.id.isTruthy = true
  media : ∀ page ∈ p.pages, ∀ e ∈ page.elements,
    e.kind = .image ∨ e.kind = .video → e.src.isTruthy = true
  audios : ∀ c, p.composition = some c → ∀ a ∈ c.audios, a.src.isTruthy = true
  notes : ∀ note ∈ p.notes, note.text.isTruthy = true

instance (p : Project) : Decidable p.Complete :=
  decidable_of_iff
    ((∀ page ∈ p.pages, page.id.IsText ∧ page.id.isTruthy = true) ∧
      (∀ page ∈ p.pages, ∀ e ∈ page.elements,
        e.kind = .image ∨ e.kind = .video → e.src.isTruthy = true) ∧
      (∀ a ∈ p.composition.elim [] Composition.audios, a.src.isTruthy = true) ∧
      ∀ note ∈ p.notes, note.text.isTruthy = true) <| by
    constructor
    · rintro ⟨hpages, hmedia, haudios, hnotes⟩
      refine ⟨hpages, hmedia, fun c hc => ?_, hnotes⟩
      rwa [hc] at haudios
    · rintro ⟨hpages, hmedia, haudios, hnotes⟩
      refine ⟨hpages, hmedia, ?_, hnotes⟩
      cases hc : p.composition with
      | none => exact fun a ha => absurd ha List.not_mem_nil
      | some c => exact haudios c hc

theorem Value.isTruthy_text {s : String} : (Value.text s).isTruthy = true ↔ s ≠ "" := by
  simp [isTruthy]

/-- The command sets a text that must be there to the empty one. -/
inductive Empties (ctx : Context) (p : Project) (name : String) : Prop
  | track {args : Arguments} : name = "set-audio" →
      ctx.parse Tracks.changeGrammar = .ok args →
      args.get? "src" = some (.text "") → Empties ctx p name
  | element {args : Arguments} {aim pageId : Value} {e : Element} : name = "set-element" →
      ctx.parse Elements.changeGrammar = .ok args →
      args.get? "src" = some (.text "") →
      Elements.target p [args.nonempty? "id", args.nonempty? "target"] = .ok aim →
      Elements.locate p aim = .ok (pageId, e) →
      e.kind = .image ∨ e.kind = .video → Empties ctx p name
  | note {args : Arguments} : name = "set-note" →
      ctx.parse Notes.changeGrammar = .ok args →
      args.get? "text" = some (.text "") → Empties ctx p name
  | page {args : Arguments} : name = "set-page" →
      ctx.parse Pages.changeGrammar = .ok args →
      args.get? "new_id" = some (.text "") → Empties ctx p name

/-! ## A field that must hold something -/

section Demands
variable {α : Type} [Entity α] {f : Entity.Field α} {P : Value → Prop}

/-- The field holds a value with the property; the others are free. -/
def Demands (f : Entity.Field α) (P : Value → Prop) : Entity.Field α → Value → Prop :=
  fun g v => g = f → P v

theorem keeps_demands {e : α} : Keeps (Demands f P) e ↔ P (Entity.get e f) := by
  constructor
  · intro h
    exact h f rfl
  · rintro h g rfl
    exact h

theorem Arguments.nonempty?_eq_some {args : Arguments} {name s : String}
    (h : args.nonempty? name = some s) : args.get? name = some (.text s) ∧ s ≠ "" := by
  unfold nonempty? at h
  split at h
  · rename_i t ht
    obtain ⟨hne, h⟩ := Option.ite_none_left_eq_some.mp h
    cases h
    exact ⟨get?_of_text? ht, by simpa using hne⟩
  · cases h

/-- Changes that leave a field out can give it nothing that it may not hold. -/
theorem Changes.fit_of_ne {changes : Changes}
    (h : ∀ c ∈ changes, c.1 ≠ Entity.name f) : Fit (Demands f P) changes := by
  rintro c hc g hg rfl
  have hname := Entity.name_of_field? hg
  exact absurd hname.symm (h c hc)

/-- A line that gives a field no empty text gives it what it must hold. -/
theorem Grammar.fit_of_parse {g : Grammar} {tokens : List String} {fps : Number}
    {args : Arguments} {o : CommandOption} (hP : ∀ s, s ≠ "" → P (.text s))
    (ho : g.options.filter (·.name == Entity.name f) = [o])
    (htext : o.kind = .value Converter.text) (h : g.parse tokens fps = .ok args)
    (hne : args.get? (Entity.name f) ≠ some (.text "")) :
    Changes.Fit (Demands f P) args := by
  rintro c hc k hk rfl
  have hname := Entity.name_of_field? hk
  have hget := get?_of_mem h hc
  rw [← hname] at hget
  obtain ⟨s, hs⟩ := isText_of_parse ho htext h hget
  rw [hs] at hget ⊢
  refine hP s ?_
  rintro rfl
  exact hne hget

end Demands

/-! ## Lines that empty nothing -/

theorem Element.setOnlyBy_kind : SetOnlyBy [] Element.kind := by
  intro e f v e' h _
  cases f with
  | kind => cases h
  | textAlign | extra =>
      obtain ⟨_, -, h⟩ := bind_eq_ok.mp h
      cases h
      rfl
  | _ =>
      cases h
      rfl

namespace Elements

theorem Placed.kind {e f : Element} (h : Placed e f) : f.kind = e.kind := by
  obtain ⟨_, _, _, _, -, rfl⟩ := h
  rfl

theorem start_kind {c : Composition} {kind : ElementKind} {args : Arguments} {e : Element}
    (h : start c kind args = .ok e) : e.kind = kind := by
  unfold start at h
  split at h
  · unfold copySource at h
    split at h
    · cases h
    · split at h
      · rename_i hkind
        cases h
        exact hkind
      · cases h
  · unfold default at h
    split at h
    · rename_i hkind
      cases h
      exact hkind.symm
    · exact (centered_placed h).kind

theorem draft_kind {r : Recipe} {c : Composition} {files : Option FileStorage}
    {args : Arguments} {e : Element} (h : draft r c files args = .ok e) : e.kind = r.kind := by
  obtain ⟨d, f, hd, hf, he⟩ := draft_eq_ok h
  rw [Changes.assign_keeps Element.setOnlyBy_kind he fun _ _ => List.not_mem_nil,
    ← start_kind hd]
  rcases hf with rfl | hf
  · rfl
  · exact hf.kind

/-- A new image or video has a source. -/
theorem draft_src {r : Recipe} {c : Composition} {files : Option FileStorage}
    {args : Arguments} {e : Element} (h : draft r c files args = .ok e) (hkind : e.kind ≠ .text) :
    e.src.isTruthy = true := by
  rw [draft_kind h] at hkind
  obtain ⟨d, -, h⟩ := bind_eq_ok.mp h
  simp only [hkind, if_false] at h
  obtain ⟨f, -, h⟩ := bind_eq_ok.mp h
  obtain ⟨g, -, h⟩ := bind_eq_ok.mp h
  split at h
  · cases h
  · rename_i hsrc
    cases h
    simpa [hkind] using hsrc

end Elements

section Parts
variable {ctx : Context} {p q : Project} {name : String}

theorem Audio.Origin.complete {a : Audio} (h : Audio.Origin ctx p name a) (hp : p.Complete)
    (hnot : ¬ Empties ctx p name) : a.src.isTruthy = true := by
  suffices Keeps (Demands Audio.Field.src (·.isTruthy = true)) a from keeps_demands.mp this
  cases h with
  | kept hc ha => exact keeps_demands.mpr (hp.audios _ hc a ha)
  | created hreads hsrc hassign =>
      refine Changes.assign_fields Audio.lawful hassign (Changes.fit_of_ne fun d hd => ?_)
        (keeps_demands.mpr (Value.isTruthy_text.mpr (Arguments.nonempty?_eq_some hsrc).2))
      exact Arguments.ne_of_mem_except hd (by decide)
  | changed hreads ha hmerge =>
      have hgiven := Grammar.fit_of_parse (α := Audio) (f := Audio.Field.src)
        (P := (·.isTruthy = true)) (fun _ => Value.isTruthy_text.mpr) rfl rfl hreads.args
        fun hempty => hnot (.track rfl hreads.args hempty)
      exact Changes.merge_fields Audio.lawful hmerge (hgiven.except _)
        (keeps_demands.mpr (hp.audios _ hreads.composition _ ha))

theorem Element.Origin.complete {e : Element} (h : Element.Origin ctx p name e)
    (hp : p.Complete) (hnot : ¬ Empties ctx p name) (hkind : e.kind = .image ∨ e.kind = .video) :
    e.src.isTruthy = true := by
  cases h with
  | kept hpage he => exact hp.media _ hpage e he hkind
  | @copied page d id hpage he =>
      show d.src.isTruthy = true
      exact hp.media page hpage d he hkind
  | @created r c args d id _ _ hdraft =>
      have hmedium : d.kind ≠ .text := by
        intro htext
        rcases hkind with hkind | hkind <;> cases htext.symm.trans hkind
      show d.src.isTruthy = true
      exact Elements.draft_src hdraft hmedium
  | @changed c args aim pageId page d f diff hreads haim hlocate hpage hd _ hmerge =>
      have hsame : e.kind = d.kind :=
        Changes.merge_keeps Element.setOnlyBy_kind hmerge fun _ _ => List.not_mem_nil
      rw [hsame] at hkind
      have hgiven := Grammar.fit_of_parse (α := Element) (f := Element.Field.src)
        (P := (·.isTruthy = true)) (fun _ => Value.isTruthy_text.mpr) rfl rfl hreads.args
        fun hempty => hnot (.element rfl hreads.args hempty haim hlocate hkind)
      have hsrc := hp.media page (Project.pages_eq hreads.composition ▸ hpage) d hd hkind
      exact keeps_demands.mp (Changes.merge_fields Element.lawful hmerge (hgiven.except _)
        (keeps_demands.mpr hsrc))

theorem Note.Origin.complete {note : Note} (h : Note.Origin ctx p name note) (hp : p.Complete)
    (hnot : ¬ Empties ctx p name) : note.text.isTruthy = true := by
  cases h with
  | kept hnote => exact hp.notes note hnote
  | created id _ htext =>
      exact Value.isTruthy_text.mpr (Arguments.nonempty?_eq_some htext).2
  | @changed c args old new diff hreads hnote hmerge =>
      have hgiven := Grammar.fit_of_parse (α := Note) (f := Note.Field.text)
        (P := (·.isTruthy = true)) (fun _ => Value.isTruthy_text.mpr) rfl rfl hreads.args
        fun hempty => hnot (.note rfl hreads.args hempty)
      show new.text.isTruthy = true
      exact keeps_demands.mp (Changes.merge_fields Note.lawful hmerge (hgiven.except _)
        (keeps_demands.mpr (hp.notes old hnote)))

theorem Page.Origin.complete {page : Page} (h : Page.Origin ctx p name page) (hp : p.Complete)
    (hnot : ¬ Empties ctx p name) : page.id.IsText ∧ page.id.isTruthy = true := by
  have htext : ∀ id : String, id ≠ "" →
      (Value.text id).IsText ∧ (Value.text id).isTruthy = true :=
    fun id hid => ⟨Value.isText_text id, Value.isTruthy_text.mpr hid⟩
  cases h with
  | kept hpage => exact hp.pages page hpage
  | @refilled _ old es hpage => exact hp.pages old hpage
  | blank _ _ hid => exact htext _ hid
  | copied _ _ _ hid => exact htext _ hid
  | @changed c args old new newId diff hreads hpage hnewId hmerge =>
      have hold : Keeps (Demands Page.Field.id fun v => v.IsText ∧ v.isTruthy = true) old :=
        keeps_demands.mpr (hp.pages old (Project.pages_eq hreads.composition ▸ hpage))
      refine keeps_demands.mp (Changes.merge_fields Page.lawful hmerge (.append ?_ ?_) hold)
      · exact Changes.fit_of_ne fun d hd => Arguments.ne_of_mem_except hd (by decide)
      · rintro d hd g - rfl
        obtain ⟨id, hid, rfl⟩ := Option.map_eq_some_iff.mp (Option.mem_toList.mp hd)
        refine htext id ?_
        rintro rfl
        exact hnot (.page rfl hreads.args (Arguments.get?_of_text? (hnewId "" hid)))

/-- A command that empties no text that must be there keeps a project complete. -/
theorem Project.Origin.complete (h : Project.Origin ctx p name q) (hp : p.Complete)
    (hnot : ¬ Empties ctx p name) : q.Complete where
  pages page hpage := (h.pages page hpage).complete hp hnot
  media page hpage e he := (h.elements page hpage e he).complete hp hnot
  audios d hd a ha := (h.audios d hd a ha).complete hp hnot
  notes note hnote := (h.notes note hnote).complete hp hnot

end Parts

/-! ## Lines that empty a text -/

namespace Collection

/-- An update gives a field the new value, if it holds another one. -/
theorem update_sets {c : Collection} {p : Project} {id v : Value} {changes : Changes}
    {fps : Number} {frameFields : List String} {move : Option Move} {mode : MoveMode}
    {u : Update c.Item} {before after : List c.Item} {x : c.Item} {f : Entity.Field c.Item}
    (h : c.update p id changes fps frameFields move mode = .ok u)
    (hxs : c.items p = .ok (before ++ x :: after)) (hx : FirstWithId id before x)
    (hv : (Entity.name f, v) ∈ changes) (honly : ∀ d ∈ changes, d.1 = Entity.name f → d.2 = v)
    (hne : Entity.holds x f v = false) :
    ∃ diff ys, Changes.merge x fps frameFields changes = .ok (u.item, diff) ∧ u.item ∈ ys ∧
      Entity.get u.item f = v ∧ u.changed = true ∧ u.revised = some (c.replace p ys) := by
  obtain ⟨before', x', after', y, diff, t, ys, k, hxs', hx', -, hmerge, hk, rfl⟩ :=
    update_eq_ok.mp h
  obtain ⟨rfl, rfl, rfl⟩ := hx.unique hx' (Except.ok.inj (hxs.symm.trans hxs'))
  obtain ⟨hget, hdiff⟩ := Changes.merge_get (lawful c) hmerge hv honly hne
  have hsome : diff.isEmpty = false := by simpa using hdiff
  have hmem : y ∈ ys := (arrange_perm hk).mem_iff.mpr (by simp)
  simp only [hsome, Bool.false_and, Bool.false_eq_true, if_false]
  exact ⟨diff, ys, hmerge, hmem, hget, by simp [Update.changed, hsome], rfl⟩

end Collection

/-- A value that is there is not the empty text. -/
theorem Value.same_empty {v : Value} (h : v.isTruthy = true) : v.same (.text "") = false := by
  rw [← Bool.not_eq_true]
  intro hsame
  rw [same_text_iff] at hsame
  rw [hsame] at h
  cases h

section Commands
variable {ctx : Context} {p q : Project} {c : Composition} {args : Arguments}

theorem Arguments.mem_except {name : String} {v : Value} {excluded : List String}
    (h : args.get? name = some v) (hname : name ∉ excluded) : (name, v) ∈ args.except excluded :=
  List.mem_filter.mpr ⟨Value.mem_of_lookup h, by simpa using hname⟩

theorem Tracks.change_empties {id : Value} {move : Option Move} {u : Update Audio}
    (hp : p.Complete) (hargs : ctx.parse changeGrammar = .ok args)
    (hsrc : args.get? "src" = some (.text ""))
    (hu : Collection.audios.update p id (args.except ["id", "before", "after"]) (.int p.fps)
      frameFields move .relative = .ok u) :
    u.changed = true ∧ ∃ q, u.revised = some q ∧ ¬ q.Complete := by
  obtain ⟨before, x, after, hxs, hx, -⟩ := Collection.update_cases hu
  obtain ⟨c, hc, hitems⟩ := Collection.items_audios.mp hxs
  have htruthy : x.src.isTruthy = true := hp.audios c hc x (by rw [hitems]; simp)
  obtain ⟨_, ys, -, hmem, hget, hchanged, hrevised⟩ :=
    Collection.update_sets (c := .audios) (f := Audio.Field.src) hu hxs hx
      (Arguments.mem_except hsrc (by decide)) (Grammar.eq_of_mem_except hargs hsrc)
      (Value.same_empty htruthy)
  refine ⟨hchanged, _, hrevised, fun hcomplete => ?_⟩
  rw [Collection.replace_audios hc] at hcomplete
  have hsome := hcomplete.audios _ rfl u.item hmem
  rw [show u.item.src = .text "" from hget] at hsome
  cases hsome

theorem Notes.change_empties {id : Value} {u v : Update Note} {now : String}
    (hp : p.Complete) (hargs : ctx.parse changeGrammar = .ok args)
    (htext : args.get? "text" = some (.text ""))
    (hu : Collection.notes.update p id (args.except ["id"]) (.int p.fps) ["time"] none .relative =
      .ok u)
    (hv : stamp now u = .ok v) :
    v.changed = true ∧ ∃ q, v.revised = some q ∧ ¬ q.Complete := by
  obtain ⟨before, x, after, hnotes, hx, hcases⟩ := stamp_cases hu hv
  have htruthy : x.text.isTruthy = true := hp.notes x (by rw [hnotes]; simp)
  have hnew := Arguments.mem_except htext (by decide : "text" ∉ ["id"])
  have honly : ∀ d ∈ args.except ["id"], d.1 = "text" → d.2 = .text "" :=
    Grammar.eq_of_mem_except hargs htext
  rcases hcases with ⟨-, hunchanged⟩ | ⟨diff, hmerge, -, hchanged, hrevised⟩
  · -- the update changed the note, and its stamp is no reason not to report this
    exfalso
    obtain ⟨_, ys, -, -, -, hchanged, hrevised⟩ :=
      Collection.update_sets (c := .notes) (f := Note.Field.text) hu
        (Collection.items_notes.mpr hnotes) hx hnew honly (Value.same_empty htruthy)
    rw [stamp, hrevised] at hv
    obtain ⟨_, -, hv⟩ := bind_eq_ok.mp hv
    cases hv
    cases hchanged.symm.trans hunchanged
  · obtain ⟨hget, -⟩ := Changes.merge_get (f := Note.Field.text) Note.lawful hmerge hnew honly
      (Value.same_empty htruthy)
    refine ⟨hchanged, _, hrevised, fun hcomplete => ?_⟩
    have hsome := hcomplete.notes { v.item with updatedAt := .text now } (by simp)
    rw [show v.item.text = .text "" from hget] at hsome
    cases hsome

theorem Elements.change_empties {aim pageId : Value} {e : Element} {move : Option Move}
    {u : Update Element} (hp : p.Complete) (hargs : ctx.parse changeGrammar = .ok args)
    (hsrc : args.get? "src" = some (.text "")) (hlocate : locate p aim = .ok (pageId, e))
    (hkind : e.kind = .image ∨ e.kind = .video)
    (hu : (Collection.elements pageId).update p aim
      (args.except ["target", "id", "before", "after"]) (.int p.fps) frameFields move .absolute =
        .ok u) :
    u.changed = true ∧ ∃ q, u.revised = some q ∧ ¬ q.Complete := by
  obtain ⟨_, hrequire⟩ := require_of_locate hlocate
  obtain ⟨before, after, hxs, -, hfirst⟩ := Collection.require_eq_ok.mp hrequire
  obtain ⟨c, pre, page, post, hc, hpages, hpage, hes⟩ := Collection.items_elements.mp hxs
  have htruthy : e.src.isTruthy = true :=
    hp.media page (by rw [Project.pages_eq hc, hpages]; simp) e (by rw [hes]; simp) hkind
  have hname : "src" ∉ ["target", "id", "before", "after"] := by decide
  obtain ⟨_, ys, hmerge, hmem, hget, hchanged, hrevised⟩ :=
    Collection.update_sets (c := .elements pageId) (f := Element.Field.src) hu hxs hfirst
      (Arguments.mem_except hsrc hname) (Grammar.eq_of_mem_except hargs hsrc)
      (Value.same_empty htruthy)
  have hsame : u.item.kind = e.kind :=
    Changes.merge_keeps Element.setOnlyBy_kind hmerge fun _ _ => List.not_mem_nil
  refine ⟨hchanged, _, hrevised, fun hcomplete => ?_⟩
  rw [Collection.replace_elements hc hpages hpage] at hcomplete
  have hsome := hcomplete.media (page.withElements ys)
    (List.mem_append_right _ List.mem_cons_self) u.item hmem (hsame ▸ hkind)
  rw [show u.item.src = .text "" from hget] at hsome
  cases hsome

theorem Pages.newId?_empty {page : Page} {newId : Option String} (hp : p.Complete)
    (hpage : page ∈ p.pages) (hnew : args.get? "new_id" = some (.text ""))
    (h : newId? p page args = .ok newId) : newId = some "" := by
  have htext : args.text? "new_id" = some "" := by
    unfold Arguments.get? at hnew
    simp only [Arguments.text?, hnew]
  have hother : ∀ x ∈ p.pages, x.id.same (.text "") = false :=
    fun x hx => Value.same_empty (hp.pages x hx).2
  have hid : page.id.isText "" = false := by
    rw [← Bool.not_eq_true, Value.isText_iff, ← Value.same_text_iff, Bool.not_eq_true]
    exact hother page hpage
  have hfree : Collection.place? p.pages (.text "") = none := place?_eq_none.mpr hother
  unfold newId? at h
  simp only [htext, hid, hfree, Bool.false_eq_true, if_false, Option.isSome_none,
    Except.ok.injEq] at h
  exact h.symm

theorem Pages.change_empties {page : Page} {newId : Option String} {move : Option Move}
    {u : Update Page} (hp : p.Complete) (hpage : page ∈ p.pages)
    (hnew : args.get? "new_id" = some (.text "")) (hnewId : newId? p page args = .ok newId)
    (hu : Collection.pages.update p page.id
      (args.except ["target", "id", "new_id", "before", "after"] ++
        (newId.map fun id => ("id", Value.text id)).toList)
      (.int p.fps) ["duration"] move .relative = .ok u) :
    u.changed = true ∧ ∃ q,
      (match newId with
        | some id => u.revised.map (reselect page.id id)
        | none => u.revised) = some q ∧ ¬ q.Complete := by
  obtain rfl := newId?_empty hp hpage hnew hnewId
  obtain ⟨before, x, after, hxs, hx, -⟩ := Collection.update_cases hu
  obtain ⟨c, hc, hpages⟩ := Collection.items_pages.mp hxs
  have hmem : x ∈ p.pages := by
    rw [Project.pages_eq hc, hpages]
    simp
  have honly : ∀ d ∈ args.except ["target", "id", "new_id", "before", "after"] ++
      [("id", Value.text "")], d.1 = "id" → d.2 = .text "" := by
    intro d hd hname
    rcases List.mem_append.mp hd with hd | hd
    · exact absurd hname (Arguments.ne_of_mem_except hd (by decide))
    · rw [List.mem_singleton.mp hd]
  obtain ⟨_, ys, -, hitem, hget, hchanged, hrevised⟩ :=
    Collection.update_sets (c := .pages) (f := Page.Field.id) hu hxs hx
      (List.mem_append_right _ List.mem_cons_self) honly (Value.same_empty (hp.pages x hmem).2)
  refine ⟨hchanged, _, by rw [hrevised]; rfl, fun hcomplete => ?_⟩
  rw [reselect_eq, Collection.replace_pages hc] at hcomplete
  have hsome := (hcomplete.pages u.item hitem).2
  rw [show u.item.id = .text "" from hget] at hsome
  cases hsome

end Commands

/-- A command that empties a text that must be there, and comes to an end, leaves an incomplete
project. -/
theorem Effect.incomplete {ctx : Context} {p : Project} {name : String} {o : Outcome}
    (h : Effect ctx name o) (hp : ctx.project = some p) (hcomplete : p.Complete)
    (hempties : Empties ctx p name) : ¬ (o.revised.getD p).Complete := by
  have hanswer {α : Type} {u : Update α} {revised : Option Project} :
      (u.changed = true ∧ ∃ q, revised = some q ∧ ¬ q.Complete) →
      o.revised = (if u.changed then revised else none) → ¬ (o.revised.getD p).Complete := by
    rintro ⟨hchanged, q, rfl, hnot⟩ ho
    rw [ho, if_pos hchanged]
    exact hnot
  have hname : name ∈ ["set-audio", "set-element", "set-note", "set-page"] := by
    cases hempties <;> subst name <;> decide
  cases h with
  | changeTrack hreads _ _ hu ho =>
      cases hreads.project.symm.trans hp
      cases hempties with
      | track _ hargs hsrc =>
          cases hargs.symm.trans hreads.args
          exact hanswer (Tracks.change_empties hcomplete hargs hsrc hu) ho.revised
      | element h | note h | page h => exact absurd h (by decide)
  | changeElement hreads haim _ hlocate _ hu ho =>
      cases hreads.project.symm.trans hp
      cases hempties with
      | element _ hargs hsrc haim' hlocate' hkind =>
          cases hargs.symm.trans hreads.args
          cases haim.symm.trans haim'
          cases hlocate.symm.trans hlocate'
          exact hanswer (Elements.change_empties hcomplete hargs hsrc hlocate hkind hu) ho.revised
      | track h | note h | page h => exact absurd h (by decide)
  | changeNote hreads _ hu hv ho =>
      cases hreads.project.symm.trans hp
      cases hempties with
      | note _ hargs htext =>
          cases hargs.symm.trans hreads.args
          exact hanswer (Notes.change_empties hcomplete hargs htext hu hv) ho.revised
      | track h | element h | page h => exact absurd h (by decide)
  | changePage hreads hpage _ hnewId hu ho =>
      cases hreads.project.symm.trans hp
      cases hempties with
      | page _ hargs hnew =>
          cases hargs.symm.trans hreads.args
          exact hanswer
            (Pages.change_empties hcomplete (Project.target_mem hpage) hnew hnewId hu) ho.revised
      | track h | element h | note h => exact absurd h (by decide)
  | createElement hr => exact absurd hname (Elements.command_not_mem hr (by decide))
  | _ => exact absurd hname (by decide)

namespace Session

/-- A line makes a complete project incomplete exactly if it succeeds in emptying a text that must
be there. -/
theorem answer_complete_iff {p : Project} (hp : p.Complete) (ids : IdSource)
    (collaborators : Collaborators) (line : String) (j : Journal) :
    ∃ q, (answer ids collaborators (some p) line j).projectAfter (some p) = some q ∧
      (q.Complete ↔
        ¬ ((answer ids collaborators (some p) line j).success = true ∧
          ∃ command args, Calls line command args ∧
            Empties (context ids collaborators (some p) args) p command.name)) := by
  refine ⟨_, Outcome.projectAfter_some _ p, ?_⟩
  rcases answer_cases ids collaborators (some p) line j with
    hrefuses | ⟨command, args, hcalls, -, heffect⟩
  · rw [hrefuses.revised, hrefuses.success]
    exact ⟨fun _ h => Bool.false_ne_true h.1, fun _ => hp⟩
  constructor
  · rintro hcomplete ⟨-, command', args', hcalls', hempties⟩
    obtain ⟨rfl, rfl⟩ := hcalls.unique hcalls'
    exact heffect.incomplete rfl hp hempties hcomplete
  · intro hnot
    refine (heffect.origin rfl).complete hp fun hempties => hnot ?_
    exact ⟨heffect.success, command, args, hcalls, hempties⟩

end Session

/-! ## A project with all four texts -/

/-- A page with an image, a track and a note. -/
def Project.furnished : Project where
  id := "project"
  name := .text "Furnished"
  composition := some {
    pages := [{
      id := .text "page", name := .text "Page", duration := .int 150
      elements := [{ id := .text "image", kind := .image, src := .text "a.png" }] }]
    audios := [{ id := .text "track", src := .text "a.mp3" }] }
  notes := [{ id := .text "note", time := .int 0, text := .text "Note" }]
  appState := { selectedPageId := .text "page", selectedElementId := .text "image" }

namespace Session

/-- An empty title is no loss. -/
theorem untitled_stays_complete :
    Project.furnished.Complete ∧
      ∃ q, (answer .counting {} (some .furnished) "/set-comp --title \"\"" {}).projectAfter
        (some .furnished) = some q ∧ q.name.isText "" = true ∧ q.Complete := by
  have hcomplete : Project.furnished.Complete := by decide
  obtain ⟨q, hq, hiff⟩ :=
    answer_complete_iff hcomplete .counting {} "/set-comp --title \"\"" {}
  refine ⟨hcomplete, q, hq, ?title, hiff.mpr ?empties⟩
  case title =>
    have htitle : ((answer .counting {} (some .furnished) "/set-comp --title \"\"" {}).projectAfter
        (some .furnished)).all (·.name.isText "") = true := by decide +kernel
    rwa [hq] at htitle
  case empties =>
    rintro ⟨-, command, args, ⟨name, hcall, hget⟩, hempties⟩
    have hline : Line.call? "/set-comp --title \"\"" = some ⟨"set-comp", ["--title", ""]⟩ := by
      decide +kernel
    cases hline.symm.trans hcall
    obtain ⟨-, hlower⟩ := Catalog.get?_ofList hget
    cases hempties with
    | track h | element h | note h | page h =>
        rw [h] at hlower
        exact absurd hlower (by decide +kernel)

/-- Each of the four texts can be emptied. -/
theorem furnished_can_be_emptied :
    Project.furnished.Complete ∧
      ∀ line ∈ ["/set-audio --id track --src \"\"", "/set-element --src \"\"",
          "/set-note --id note --text \"\"", "/set-page --new-id \"\""],
        ¬ ((answer .counting {} (some .furnished) line {}).revised.getD .furnished).Complete := by
  decide +kernel

end Session

end Montage
