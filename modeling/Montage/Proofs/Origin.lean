/-
# Where the parts of a project come from

A command makes a project out of the parts of the one before.  `Project.Origin ctx p
name q` says of every part of `q` that it was a part of `p`, or how the command made it:

    element      kept, drafted for a new element, copied with its page, merged with changes
    page         kept, with other elements, blank, copied, merged with changes
    audio track  kept, assigned from the options, merged with changes
    note         kept, new at a given time or at the playhead, merged with changes
    settings     kept, or with the title and the numbers that were given
    zoom         kept, or the level of a percentage
    selection    kept, a page that is there or a text; kept, or no element

What is made or merged, rather than kept, is the work of one command, or of the three
that add elements, and stands under its name: `Audio.Origin ctx p name a` says how the
command `name` may come to leave the track `a`.  What a command leaves out does not
matter here, so nothing is said of order and number.  `Effect.origin` goes through the
commands once; an invariant that speaks of each part by itself is then proved part by
part, from the few lines of this table.  No assumption on the project is made: ids may
repeat, and need not be texts.
-/
import Montage.Proofs.Fields
import Montage.Proofs.Frame

namespace Montage

section Origins
variable (ctx : Context) (p : Project)

/-- Where an audio track comes from. -/
inductive Audio.Origin : String → Audio → Prop
  | kept {name : String} {c : Composition} {a : Audio} :
      p.composition = some c → a ∈ c.audios → Origin name a
  | created {c : Composition} {args : Arguments} {src id : String} {a : Audio} :
      ctx.Reads Tracks.createGrammar p c args →
      args.nonempty? "src" = some src →
      Changes.assign (Tracks.blank id src p.fps) (args.except ["src"]) = .ok a →
      Origin "new-audio" a
  | changed {c : Composition} {args : Arguments} {a b : Audio} {diff : List String} :
      ctx.Reads Tracks.changeGrammar p c args →
      a ∈ c.audios →
      Changes.merge a (.int p.fps) Tracks.frameFields (args.except ["id", "before", "after"]) =
        .ok (b, diff) →
      Origin "set-audio" b

/-- Where an element comes from. -/
inductive Element.Origin : String → Element → Prop
  | kept {name : String} {page : Page} {e : Element} :
      page ∈ p.pages → e ∈ page.elements → Origin name e
  | copied {page : Page} {e : Element} (id : String) :
      page ∈ p.pages → e ∈ page.elements → Origin "new-page" { e with id := .text id }
  | created {r : Elements.Recipe} {c : Composition} {args : Arguments} {e : Element}
      (id : String) :
      r ∈ Elements.recipes →
      ctx.Reads r.grammar p c args →
      Elements.draft r c ctx.collaborators.files args = .ok e →
      Origin r.grammar.command { e with id := .text id }
  | changed {c : Composition} {args : Arguments} {aim pageId : Value} {page : Page}
      {e f : Element} {diff : List String} :
      ctx.Reads Elements.changeGrammar p c args →
      Elements.target p [args.nonempty? "id", args.nonempty? "target"] = .ok aim →
      Elements.locate p aim = .ok (pageId, e) →
      page ∈ c.pages → e ∈ page.elements →
      Elements.checkOptions e (args.except ["target", "id", "before", "after"]) = .ok () →
      Changes.merge e (.int p.fps) Elements.frameFields
        (args.except ["target", "id", "before", "after"]) = .ok (f, diff) →
      Origin "set-element" f

/-- Where a note comes from. -/
inductive Note.Origin : String → Note → Prop
  | kept {name : String} {note : Note} : note ∈ p.notes → Origin name note
  | created {c : Composition} {args : Arguments} {text : String} (id : String) :
      ctx.Reads Notes.createGrammar p c args →
      args.nonempty? "text" = some text →
      Origin "new-note" {
        id := .text id
        time := (args.get? "time").getD p.appState.currentTime
        text := .text text
        createdAt := .text ctx.ids.now }
  | changed {c : Composition} {args : Arguments} {note new : Note} {diff : List String} :
      ctx.Reads Notes.changeGrammar p c args →
      note ∈ p.notes →
      Changes.merge note (.int p.fps) ["time"] (args.except ["id"]) = .ok (new, diff) →
      Origin "set-note" { new with updatedAt := .text ctx.ids.now }

/-- Where a page comes from; its elements are told apart from it. -/
inductive Page.Origin : String → Page → Prop
  | kept {name : String} {page : Page} : page ∈ p.pages → Origin name page
  | refilled {name : String} {page : Page} (es : List Element) :
      page ∈ p.pages → Origin name (page.withElements es)
  | blank {id : String} (name : String) {c : Composition} :
      p.composition = some c → id ≠ "" →
      Origin "new-page" { id := .text id, name := .text name, duration := defaultFrames p.fps }
  | copied {page : Page} {id : String} (i : Nat) (es : List Element) :
      page ∈ p.pages → id ≠ "" →
      Origin "new-page"
        { page.withElements es with id := .text id, name := .text (Pages.copyName page i) }
  | changed {c : Composition} {args : Arguments} {page new : Page} {newId : Option String}
      {diff : List String} :
      ctx.Reads Pages.changeGrammar p c args →
      page ∈ c.pages →
      (∀ id, newId = some id → args.text? "new_id" = some id) →
      Changes.merge page (.int p.fps) ["duration"]
        (args.except ["target", "id", "new_id", "before", "after"] ++
          (newId.map fun id => ("id", Value.text id)).toList) = .ok (new, diff) →
      Origin "set-page" new

/-- Where the numbers of a composition come from. -/
inductive Composition.Origin : String → Composition → Prop
  | kept {name : String} {c d : Composition} : p.composition = some c →
      d.fps = c.fps → d.width = c.width → d.height = c.height → Origin name d
  | changed {c d : Composition} {args : Arguments} :
      ctx.Reads Settings.changeGrammar p c args →
      d.fps = (args.int? "fps").getD c.fps →
      d.width = (args.int? "width").getD c.width →
      d.height = (args.int? "height").getD c.height → Origin "set-comp" d

/-- Where a zoom level comes from. -/
inductive AppState.ZoomOrigin : String → Value → Prop
  | kept {name : String} : ZoomOrigin name p.appState.zoomLevel
  | changed {c : Composition} {args : Arguments} {x : Binary64} :
      ctx.Reads Settings.zoomGrammar p c args →
      Settings.requirePercentage args = .ok x →
      ZoomOrigin "zoom-tl" (.float ((Settings.clampPercentage x).div (Binary64.ofInt 100)))

/-- Every part of `q` was a part of `p`, or the command made it. -/
structure Project.Origin (name : String) (q : Project) : Prop where
  title : q.name = p.name ∨ q.name.IsText
  composition : ∀ d, q.composition = some d → Composition.Origin ctx p name d
  pages : ∀ page ∈ q.pages, Page.Origin ctx p name page
  elements : ∀ page ∈ q.pages, ∀ e ∈ page.elements, Element.Origin ctx p name e
  audios : ∀ d, q.composition = some d → ∀ a ∈ d.audios, Audio.Origin ctx p name a
  notes : ∀ note ∈ q.notes, Note.Origin ctx p name note
  selectedPage : q.appState.selectedPageId = p.appState.selectedPageId ∨
    q.appState.selectedPageId.IsText ∨ ∃ page ∈ q.pages, q.appState.selectedPageId = page.id
  selectedElement : q.appState.selectedElementId = p.appState.selectedElementId ∨
    q.appState.selectedElementId = .null
  zoom : AppState.ZoomOrigin ctx p name q.appState.zoomLevel
  currentTime : q.appState.currentTime = p.appState.currentTime
  extra : q.appState.extra = p.appState.extra

end Origins

variable {ctx : Context} {p q : Project} {c : Composition} {name : String}

/-- An item of a list in which `y` has taken the place of `x`. -/
theorem Collection.mem_replaced {α : Type} {before after ys : List α} {x y a : α}
    (hperm : ys.Perm (before ++ y :: after)) (ha : a ∈ ys) :
    a = y ∨ a ∈ before ++ x :: after := by
  have hmem := hperm.mem_iff.mp ha
  rw [List.mem_append, List.mem_cons] at hmem ⊢
  tauto

/-! ## Projects made of such parts -/

namespace Project.Origin

theorem refl : Origin ctx p name p where
  title := .inl rfl
  composition _ hd := .kept hd rfl rfl rfl
  pages _ := .kept
  elements _ hpage _ := .kept hpage
  audios _ hd _ := .kept hd
  notes _ := .kept
  selectedPage := .inl rfl
  selectedElement := .inl rfl
  zoom := .kept
  currentTime := rfl
  extra := rfl

theorem withAudios (hc : p.composition = some c) {audios : List Audio}
    (h : ∀ a ∈ audios, Audio.Origin ctx p name a) :
    Origin ctx p name { p with composition := some { c with audios } } where
  title := .inl rfl
  composition := by
    rintro _ ⟨⟩
    exact .kept hc rfl rfl rfl
  pages _ hpage := .kept (pages_eq hc ▸ hpage)
  elements _ hpage _ := .kept (pages_eq hc ▸ hpage)
  audios := by
    rintro _ ⟨⟩
    exact h
  notes _ hnote := .kept hnote
  selectedPage := .inl rfl
  selectedElement := .inl rfl
  zoom := .kept
  currentTime := rfl
  extra := rfl

theorem withNotes {notes : List Note} (h : ∀ note ∈ notes, Note.Origin ctx p name note) :
    Origin ctx p name { p with notes } :=
  { (refl : Origin ctx p name p) with notes := h }

/-- Other pages, and perhaps another selection. -/
theorem withPages (hc : p.composition = some c) {pages : List Page}
    (hpages : ∀ page ∈ pages, Page.Origin ctx p name page)
    (helements : ∀ page ∈ pages, ∀ e ∈ page.elements, Element.Origin ctx p name e)
    {pageId elementId : Value}
    (hpage : pageId = p.appState.selectedPageId ∨ pageId.IsText ∨ ∃ page ∈ pages, pageId = page.id)
    (helement : elementId = p.appState.selectedElementId ∨ elementId = .null) :
    Origin ctx p name { p with
      composition := some { c with pages }
      appState := { p.appState with
        selectedPageId := pageId, selectedElementId := elementId } } where
  title := .inl rfl
  composition := by
    rintro _ ⟨⟩
    exact .kept hc rfl rfl rfl
  pages := hpages
  elements := helements
  audios := by
    rintro _ ⟨⟩ a ha
    exact .kept (c := c) hc ha
  notes _ hnote := .kept hnote
  selectedPage := hpage
  selectedElement := helement
  zoom := .kept
  currentTime := rfl
  extra := rfl

/-- Pages of before among new ones, and perhaps another selection. -/
theorem insertedPages (hc : p.composition = some c) {pages new : List Page}
    (hnew : ∀ q ∈ new, Page.Origin ctx p name q ∧ ∀ e ∈ q.elements, Element.Origin ctx p name e)
    (h : ∀ q ∈ pages, q ∈ new ∨ q ∈ c.pages) {pageId elementId : Value}
    (hpage : pageId = p.appState.selectedPageId ∨ pageId.IsText ∨ ∃ page ∈ pages, pageId = page.id)
    (helement : elementId = p.appState.selectedElementId ∨ elementId = .null) :
    Origin ctx p name { p with
      composition := some { c with pages }
      appState := { p.appState with
        selectedPageId := pageId, selectedElementId := elementId } } := by
  refine withPages hc (fun q hq => ?_) (fun q hq => ?_) hpage helement
  · rcases h q hq with hq | hq
    · exact (hnew q hq).1
    · exact .kept (pages_eq hc ▸ hq)
  · rcases h q hq with hq | hq
    · exact (hnew q hq).2
    · exact fun e => .kept (pages_eq hc ▸ hq)

/-- Other elements on one of the pages, and perhaps another selected element. -/
theorem withElements {pageId : Value} {xs es : List Element}
    (hxs : (Collection.elements pageId).items p = .ok xs)
    (hes : ∀ e ∈ es, Element.Origin ctx p name e) {elementId : Value}
    (helement : elementId = p.appState.selectedElementId ∨ elementId = .null) :
    Origin ctx p name (((Collection.elements pageId).replace p es).withState
      fun s => { s with selectedElementId := elementId }) := by
  obtain ⟨c, before, page, after, hc, hpages, hfirst, -⟩ := Collection.items_elements.mp hxs
  have hmem : ∀ q, q ∈ before ∨ q = page ∨ q ∈ after → q ∈ p.pages := by
    rw [pages_eq hc, hpages]
    simp
  rw [Collection.replace_elements hc hpages hfirst]
  refine withPages hc ?_ ?_ (.inl rfl) helement
  all_goals
    intro q hq
    rw [List.mem_append, List.mem_cons] at hq
  · rcases hq with hq | rfl | hq
    · exact .kept (hmem q (.inl hq))
    · exact .refilled es (hmem page (.inr (.inl rfl)))
    · exact .kept (hmem q (.inr (.inr hq)))
  · rcases hq with hq | rfl | hq
    · exact fun e => .kept (hmem q (.inl hq))
    · exact hes
    · exact fun e => .kept (hmem q (.inr (.inr hq)))

end Project.Origin

/-- The elements of a page are as they were. -/
theorem Project.origin_of_items {pageId : Value} {xs : List Element}
    (hxs : (Collection.elements pageId).items p = .ok xs) :
    ∀ e ∈ xs, Element.Origin ctx p name e := by
  obtain ⟨c, before, page, after, hc, hpages, -, rfl⟩ := Collection.items_elements.mp hxs
  intro e he
  have hpage : page ∈ p.pages := by
    rw [pages_eq hc, hpages]
    simp
  exact .kept hpage he

/-- A located element is the first one with the id in its collection. -/
theorem Elements.require_of_locate {aim pageId : Value} {e : Element}
    (h : locate p aim = .ok (pageId, e)) :
    ∃ i, (Collection.elements pageId).require p aim = .ok (i, e) := by
  unfold locate at h
  simp only [bind_eq_ok, pure_eq_ok, Prod.exists, Prod.mk.injEq] at h
  obtain ⟨page, -, i, d, hd, rfl, rfl⟩ := h
  exact ⟨i, hd⟩

/-! ## New pages -/

namespace Pages

theorem mem_of_copySource {args : Arguments} {page : Page}
    (h : copySource c args = .ok (some page)) : page ∈ c.pages := by
  unfold copySource at h
  split at h
  · cases h
  · split at h
    · rename_i hfind
      cases h
      exact List.mem_of_find?_eq_some hfind
    · cases h

theorem copyElements_origin {source : IdSource} {taken taken' : List Value} {page : Page}
    {es copies : List Element} {n k : Nat}
    (h : Yields (copyElements source taken es) n (copies, taken') k) (hpage : page ∈ p.pages)
    (hes : ∀ e ∈ es, e ∈ page.elements) : ∀ e ∈ copies, Element.Origin ctx p "new-page" e := by
  induction es generalizing taken taken' copies n k with
  | nil =>
      cases (yields_pure.mp h).1
      simp
  | cons e rest ih =>
      simp only [copyElements, yields_bind, Prod.exists, yields_pure, Prod.mk.injEq] at h
      obtain ⟨id, _, -, cs, _, _, hcs, ⟨rfl, -⟩, -⟩ := h
      intro f hf
      rcases List.mem_cons.mp hf with rfl | hf
      · exact .copied id hpage (hes e List.mem_cons_self)
      · exact ih hcs (fun d hd => hes d (List.mem_cons_of_mem _ hd)) f hf

theorem copies_origin {source : IdSource} {page : Page} {takenPages takenElements : List Value}
    {m i n k : Nat} {pages : List Page} (hpage : page ∈ p.pages)
    (h : Yields (copies source page takenPages takenElements m i) n pages k) :
    ∀ q ∈ pages, Page.Origin ctx p "new-page" q ∧
      ∀ e ∈ q.elements, Element.Origin ctx p "new-page" e := by
  induction m generalizing takenPages takenElements i n k pages with
  | zero =>
      cases (yields_pure.mp h).1
      simp
  | succ m ih =>
      simp only [copies, yields_bind, Prod.exists, yields_pure] at h
      obtain ⟨es, _, _, hes, id, _, hid, rest, _, hrest, rfl, -⟩ := h
      intro q hq
      rcases List.mem_cons.mp hq with rfl | hq
      · exact ⟨.copied i es hpage (drawId_ne_empty hid),
          copyElements_origin hes hpage fun _ he => he⟩
      · exact ih hrest q hq

theorem blanks_origin {source : IdSource} {taken : List Value} {m number n k : Nat}
    {pages : List Page} (hc : p.composition = some c)
    (h : Yields (blanks source p.fps taken m number) n pages k) :
    ∀ q ∈ pages, Page.Origin ctx p "new-page" q ∧
      ∀ e ∈ q.elements, Element.Origin ctx p "new-page" e := by
  induction m generalizing taken number n k pages with
  | zero =>
      cases (yields_pure.mp h).1
      simp
  | succ m ih =>
      simp only [blanks, blankPage, yields_bind, yields_pure] at h
      obtain ⟨_, _, ⟨id, _, hid, rfl, -⟩, rest, _, hrest, rfl, -⟩ := h
      intro q hq
      rcases List.mem_cons.mp hq with rfl | hq
      · exact ⟨.blank _ hc (drawId_ne_empty hid), by simp⟩
      · exact ih hrest q hq

theorem draft_origin (ctx : Context) {source : IdSource} {args : Arguments} {original : Option Page}
    {m n k : Nat} {pages : List Page} (hc : p.composition = some c)
    (hsource : copySource c args = .ok original)
    (h : Yields (draft source p c original m) n pages k) :
    ∀ q ∈ pages, Page.Origin ctx p "new-page" q ∧
      ∀ e ∈ q.elements, Element.Origin ctx p "new-page" e := by
  unfold draft at h
  cases original with
  | some page =>
      have hpage := mem_of_copySource hsource
      exact copies_origin (Project.pages_eq hc ▸ hpage) h
  | none => exact blanks_origin hc h

end Pages

/-! ## New elements -/

namespace Value

/-- A number, or a truth value in the place of one. -/
def IsNumber (v : Value) : Prop := ∃ a, v.number? = some a

theorem isNumber_ofNumber (a : Number) : (ofNumber a).IsNumber := by
  cases a <;> exact ⟨_, rfl⟩

theorem IsNumber.ne_null {v : Value} (h : v.IsNumber) : v ≠ null := by
  rintro rfl
  obtain ⟨_, h⟩ := h
  cases h

theorem toNumber_eq_ok {v : Value} {a : Number} : v.toNumber = .ok a ↔ v.number? = some a := by
  unfold toNumber
  cases v.number? <;> simp

end Value

namespace Elements

/-- The second element is the first one with a place and a size. -/
def Placed (e f : Element) : Prop :=
  ∃ left top width height : Value, (∀ v ∈ [left, top, width, height], v.IsNumber) ∧
    f = { e with left, top, width, height }

/-- An element is put in the middle of the canvas. -/
theorem centered_placed {width height : Value} {e f : Element}
    (h : centered c width height e = .ok f) : Placed e f := by
  obtain ⟨left, hleft, h⟩ := bind_eq_ok.mp h
  obtain ⟨top, htop, h⟩ := bind_eq_ok.mp h
  cases h
  simp only [bind_eq_ok, pure_eq_ok, Value.toNumber_eq_ok] at hleft htop
  obtain ⟨_, hwidth, _, -, a, -, rfl⟩ := hleft
  obtain ⟨_, hheight, _, -, b, -, rfl⟩ := htop
  refine ⟨_, _, _, _, ?_, rfl⟩
  simp only [List.forall_mem_cons]
  exact ⟨Value.isNumber_ofNumber a, Value.isNumber_ofNumber b, ⟨_, hwidth⟩, ⟨_, hheight⟩,
    List.forall_mem_nil _⟩

theorem fitted_iff {files : Option FileStorage} {args : Arguments} {e f : Element} :
    fitted c files args e = .ok f ↔ ∃ size,
      storedSize files (((args.nonempty? "src").map Value.text).getD e.src) = .ok size ∧
        size.elim (.ok e) (fun (width, height) => centered c width height e) = .ok f := by
  unfold fitted
  rw [bind_eq_ok]
  refine exists_congr fun size => and_congr_right fun _ => ?_
  cases size <;> rfl

/-- The size of a stored file gives an element its place as well. -/
theorem fitted_eq_ok {files : Option FileStorage} {args : Arguments} {e f : Element}
    (h : fitted c files args e = .ok f) : f = e ∨ Placed e f := by
  obtain ⟨size, -, hf⟩ := fitted_iff.mp h
  cases size with
  | none =>
      cases hf
      exact .inl rfl
  | some size => exact .inr (centered_placed hf)

/-- A new image or video before its place and size are known. -/
def plainMedium (kind : ElementKind) : Element :=
  { id := .text ""
    kind
    opacity := .float (Binary64.ofInt 1)
    rotation := .int 0
    delay := if kind = .video then .int 0 else .null }

/-- A new element starts from an element of the composition, from the new text, or from a new
medium. -/
theorem start_eq_ok {kind : ElementKind} {args : Arguments} {e : Element}
    (h : start c kind args = .ok e) :
    (∃ page ∈ c.pages, e ∈ page.elements) ∨ e = defaultText ∨
      ∃ width height : Int,
        centered c (.int width) (.int height) (plainMedium kind) = .ok e := by
  unfold start at h
  split at h
  · unfold copySource at h
    split at h
    · cases h
    · rename_i page source hfind
      split at h
      · cases h
        obtain ⟨before, after, hpages, howner⟩ := Project.findElement?_eq_some.mp hfind
        exact .inl ⟨page, by rw [hpages]; simp, howner.mem⟩
      · cases h
  · unfold default at h
    split at h
    · cases h
      exact .inr (.inl rfl)
    · unfold defaultMedium at h
      exact .inr (.inr ⟨_, _, h⟩)

/-- A new element starts from something, is fitted to its stored file unless it is a text, and has
the arguments last. -/
theorem draft_steps {r : Recipe} {files : Option FileStorage} {args : Arguments} {e : Element}
    (h : draft r c files args = .ok e) :
    ∃ d f, start c r.kind args = .ok d ∧
      (if r.kind = .text then f = d else fitted c files args d = .ok f) ∧
      Changes.assign f (args.except ["copy"]) = .ok e := by
  obtain ⟨d, hd, h⟩ := bind_eq_ok.mp h
  by_cases hkind : r.kind = .text
  all_goals
    simp only [hkind, if_true, if_false] at h ⊢
    obtain ⟨f, hf, h⟩ := bind_eq_ok.mp h
    obtain ⟨g, hg, h⟩ := bind_eq_ok.mp h
    have hge : g = e := by
      split at h
      · cases h
      · exact pure_eq_ok.mp h
    subst hge
  · exact ⟨d, f, hkind ▸ hd, (pure_eq_ok.mp hf).symm, hg⟩
  · exact ⟨d, f, hd, hf, hg⟩

theorem draft_eq_ok {r : Recipe} {files : Option FileStorage} {args : Arguments} {e : Element}
    (h : draft r c files args = .ok e) :
    ∃ d f, start c r.kind args = .ok d ∧ (f = d ∨ Placed d f) ∧
      Changes.assign f (args.except ["copy"]) = .ok e := by
  obtain ⟨d, f, hd, hf, he⟩ := draft_steps h
  refine ⟨d, f, hd, ?_, he⟩
  split at hf
  · exact .inl hf
  · exact fitted_eq_ok hf

/-- A rule for the fields that is kept by what a new element starts from, wherever it is placed,
and by what the line gives is kept by the new element. -/
theorem draft_keeps {R : Entity.Field Element → Value → Prop} {r : Recipe}
    {files : Option FileStorage} {args : Arguments} {e : Element}
    (hsource : ∀ page ∈ c.pages, ∀ e ∈ page.elements, Keeps R e) (htext : Keeps R defaultText)
    (hmedium : ∀ f, Placed (plainMedium r.kind) f → Keeps R f)
    (hplaced : ∀ e f, Keeps R e → Placed e f → Keeps R f) (hfit : Changes.Fit R args)
    (h : draft r c files args = .ok e) : Keeps R e := by
  obtain ⟨d, f, hd, hf, he⟩ := draft_eq_ok h
  have hstart : Keeps R d := by
    rcases start_eq_ok hd with ⟨page, hpage, he⟩ | rfl | ⟨_, _, hcentered⟩
    · exact hsource page hpage d he
    · exact htext
    · exact hmedium d (centered_placed hcentered)
  refine Changes.assign_fields Element.lawful he (hfit.except _) ?_
  rcases hf with rfl | hf
  · exact hstart
  · exact hplaced d f hstart hf

end Elements

/-! ## The commands on tracks -/

section Commands
variable {args : Arguments}

namespace Tracks

theorem create_origin {src id : String} {a : Audio} (hreads : ctx.Reads createGrammar p c args)
    (hsrc : args.nonempty? "src" = some src)
    (ha : Changes.assign (blank id src p.fps) (args.except ["src"]) = .ok a)
    (hq : Collection.audios.append p a = .ok q) : Project.Origin ctx p "new-audio" q := by
  obtain ⟨xs, hxs, -, rfl⟩ := Collection.append_eq_ok.mp hq
  obtain ⟨c, hc, rfl⟩ := Collection.items_audios.mp hxs
  rw [Collection.replace_audios hc]
  refine .withAudios hc fun b hb => ?_
  rcases List.mem_append.mp hb with hb | hb
  · exact .kept hc hb
  · obtain rfl := List.mem_singleton.mp hb
    exact .created hreads hsrc ha

theorem change_origin {id : Value} {move : Option Move} {u : Update Audio}
    (hreads : ctx.Reads changeGrammar p c args)
    (hu : Collection.audios.update p id (args.except ["id", "before", "after"]) (.int p.fps)
      frameFields move .relative = .ok u) :
    Project.Origin ctx p "set-audio" ((if u.changed then u.revised else none).getD p) := by
  obtain ⟨before, x, after, hxs, -, ⟨-, hchanged, -⟩ | ⟨diff, ys, hmerge, hperm, hchanged,
    hrevised⟩⟩ := Collection.update_cases hu
  · rw [answer_of_unchanged hchanged]
    exact .refl
  obtain ⟨c, hc, hitems⟩ := Collection.items_audios.mp hxs
  cases hreads.composition.symm.trans hc
  have hx : x ∈ c.audios := by rw [hitems]; simp
  rw [answer_of_changed hchanged, hrevised, Option.getD_some, Collection.replace_audios hc]
  refine .withAudios hc fun a ha => ?_
  rcases Collection.mem_replaced (x := x) hperm ha with rfl | ha
  · exact .changed hreads hx hmerge
  · exact .kept hc (hitems ▸ ha)

theorem delete_origin {ids : List Value} (hq : Collection.audios.remove p ids = .ok q) :
    Project.Origin ctx p name q := by
  obtain ⟨xs, hxs, rfl⟩ := Collection.remove_eq_ok hq
  obtain ⟨c, hc, rfl⟩ := Collection.items_audios.mp hxs
  rw [Collection.replace_audios hc]
  exact .withAudios hc fun a ha => .kept hc (List.mem_filter.mp ha).1

end Tracks

/-! ## The commands on elements -/

namespace Elements

theorem create_origin {r : Recipe} {e : Element} {pageId : Value} {id : String} (hr : r ∈ recipes)
    (hreads : ctx.Reads r.grammar p c args)
    (he : draft r c ctx.collaborators.files args = .ok e)
    (hq : (Collection.elements pageId).append p { e with id := .text id } = .ok q) :
    Project.Origin ctx p r.grammar.command q := by
  obtain ⟨xs, hxs, -, rfl⟩ := Collection.append_eq_ok.mp hq
  refine .withElements hxs (fun d hd => ?_) (.inl rfl)
  rcases List.mem_append.mp hd with hd | hd
  · exact Project.origin_of_items hxs d hd
  · obtain rfl := List.mem_singleton.mp hd
    exact .created _ hr hreads he

theorem change_origin {aim pageId : Value} {e : Element} {move : Option Move} {u : Update Element}
    (hreads : ctx.Reads changeGrammar p c args)
    (haim : target p [args.nonempty? "id", args.nonempty? "target"] = .ok aim)
    (hlocate : locate p aim = .ok (pageId, e))
    (hopts : checkOptions e (args.except ["target", "id", "before", "after"]) = .ok ())
    (hu : (Collection.elements pageId).update p aim
      (args.except ["target", "id", "before", "after"]) (.int p.fps) frameFields move .absolute =
        .ok u) :
    Project.Origin ctx p "set-element" ((if u.changed then u.revised else none).getD p) := by
  obtain ⟨before, x, after, hxs, hfirst, ⟨-, hchanged, -⟩ | ⟨diff, ys, hmerge, hperm, hchanged,
    hrevised⟩⟩ := Collection.update_cases hu
  · rw [answer_of_unchanged hchanged]
    exact .refl
  -- the element that the options were checked for is the one that was changed
  obtain ⟨i, hrequire⟩ := require_of_locate hlocate
  obtain ⟨before', after', hxs', -, hfirst'⟩ := Collection.require_eq_ok.mp hrequire
  obtain ⟨rfl, rfl, rfl⟩ := hfirst.unique hfirst' (Except.ok.inj (hxs.symm.trans hxs'))
  obtain ⟨_, _, page, _, hc, hpages, -, hitems⟩ := Collection.items_elements.mp hxs
  cases hreads.composition.symm.trans hc
  have hpage : page ∈ c.pages := by rw [hpages]; simp
  have hmem : x ∈ page.elements := by rw [hitems]; simp
  rw [answer_of_changed hchanged, hrevised, Option.getD_some]
  refine .withElements hxs (fun d hd => ?_) (.inl rfl)
  rcases Collection.mem_replaced (x := x) hperm hd with rfl | hd
  · exact .changed hreads haim hlocate hpage hmem hopts hmerge
  · exact Project.origin_of_items hxs d hd

theorem delete_origin {aim pageId : Value} {ids : List Value}
    (hq : (Collection.elements pageId).remove p ids = .ok q) :
    Project.Origin ctx p name
      (if p.appState.selectedElementId.same aim then withoutSelection q else q) := by
  obtain ⟨xs, hxs, rfl⟩ := Collection.remove_eq_ok hq
  have hkept : ∀ f : Element → Bool, ∀ d ∈ xs.filter f, Element.Origin ctx p name d :=
    fun f d hd => Project.origin_of_items hxs d (List.mem_filter.mp hd).1
  split
  · exact .withElements hxs (hkept _) (.inr rfl)
  · exact .withElements hxs (hkept _) (.inl rfl)

end Elements

/-! ## The commands on notes -/

namespace Notes

theorem create_origin {text id : String} (hreads : ctx.Reads createGrammar p c args)
    (htext : args.nonempty? "text" = some text)
    (hq : Collection.notes.append p
      { id := .text id, time := (args.get? "time").getD p.appState.currentTime
        text := .text text, createdAt := .text ctx.ids.now } = .ok q) :
    Project.Origin ctx p "new-note" q := by
  obtain ⟨xs, hxs, -, rfl⟩ := Collection.append_eq_ok.mp hq
  obtain rfl := Collection.items_notes.mp hxs
  refine .withNotes fun note hnote => ?_
  rcases List.mem_append.mp hnote with hnote | hnote
  · exact .kept hnote
  · obtain rfl := List.mem_singleton.mp hnote
    exact .created _ hreads htext

theorem change_origin {id : Value} {u v : Update Note} (hreads : ctx.Reads changeGrammar p c args)
    (hu : Collection.notes.update p id (args.except ["id"]) (.int p.fps) ["time"] none .relative =
      .ok u)
    (hv : stamp ctx.ids.now u = .ok v) :
    Project.Origin ctx p "set-note" ((if v.changed then v.revised else none).getD p) := by
  obtain ⟨before, x, after, hnotes, -, ⟨-, hchanged⟩ | ⟨diff, hmerge, -, hchanged, hrevised⟩⟩ :=
    stamp_cases hu hv
  · rw [answer_of_unchanged hchanged]
    exact .refl
  rw [answer_of_changed hchanged, hrevised]
  refine .withNotes fun note hnote => ?_
  rw [List.mem_append, List.mem_cons] at hnote
  rcases hnote with hnote | rfl | hnote
  · exact .kept (by rw [hnotes]; simp [hnote])
  · exact .changed hreads (by rw [hnotes]; simp) hmerge
  · exact .kept (by rw [hnotes]; simp [hnote])

theorem delete_origin {ids : List Value} (hq : Collection.notes.remove p ids = .ok q) :
    Project.Origin ctx p name q := by
  obtain ⟨xs, hxs, rfl⟩ := Collection.remove_eq_ok hq
  obtain rfl := Collection.items_notes.mp hxs
  exact .withNotes fun note hnote => .kept (List.mem_filter.mp hnote).1

end Notes

/-! ## The commands on pages -/

namespace Pages

theorem create_origin {source : IdSource} {original : Option Page} {page : Page}
    {pages : List Page} {m n k : Nat} {i : Int} (hc : p.composition = some c)
    (hsource : copySource c args = .ok original)
    (hpages : Yields (draft source p c original m) n (page :: pages) k)
    (hq : Collection.pages.insert p i (page :: pages) = .ok q) :
    Project.Origin ctx p "new-page" (withSelected q page.id) := by
  obtain ⟨xs, hxs, rfl⟩ := Collection.insert_eq_ok.mp hq
  obtain ⟨c, hc', rfl⟩ := Collection.items_pages.mp hxs
  cases hc.symm.trans hc'
  rw [Collection.replace_pages hc]
  refine .insertedPages hc (draft_origin ctx hc hsource hpages) (fun q hq => ?_)
    (.inr (.inr ⟨page, by simp, rfl⟩)) (.inr rfl)
  rcases List.mem_append.mp hq with hq | hq
  · rcases List.mem_append.mp hq with hq | hq
    · exact .inr (List.mem_of_mem_take hq)
    · exact .inl hq
  · exact .inr (List.mem_of_mem_drop hq)

theorem given_of_newId? {page : Page} {newId : Option String} (h : newId? p page args = .ok newId)
    (id : String) (hid : newId = some id) : args.text? "new_id" = some id := by
  subst hid
  unfold newId? at h
  split at h
  · cases h
  · rename_i hgiven
    split at h
    · cases h
    · split at h
      · cases h
      · cases h
        exact hgiven

theorem change_origin {page : Page} {newId : Option String} {move : Option Move}
    {u : Update Page} {followed : Option Project}
    (hfollowed : followed = match newId with
      | some id => u.revised.map (reselect page.id id)
      | none => u.revised)
    (hreads : ctx.Reads changeGrammar p c args) (hnewId : newId? p page args = .ok newId)
    (hu : Collection.pages.update p page.id
      (args.except ["target", "id", "new_id", "before", "after"] ++
        (newId.map fun id => ("id", Value.text id)).toList)
      (.int p.fps) ["duration"] move .relative = .ok u) :
    Project.Origin ctx p "set-page" ((if u.changed then followed else none).getD p) := by
  obtain ⟨before, x, after, hxs, -, ⟨-, hchanged, -⟩ | ⟨diff, ys, hmerge, hperm, hchanged,
    hrevised⟩⟩ := Collection.update_cases hu
  · rw [answer_of_unchanged hchanged]
    exact .refl
  have hc := hreads.composition
  obtain ⟨c, hc', hitems⟩ := Collection.items_pages.mp hxs
  cases hc.symm.trans hc'
  have hx : x ∈ c.pages := by rw [hitems]; simp
  have hnew : ∀ q ∈ [u.item],
      Page.Origin ctx p "set-page" q ∧ ∀ e ∈ q.elements, Element.Origin ctx p "set-page" e := by
    intro q hq
    obtain rfl := List.mem_singleton.mp hq
    refine ⟨.changed hreads hx (given_of_newId? hnewId) hmerge, fun e he => ?_⟩
    rw [merge_elements hreads.args hmerge] at he
    exact .kept (Project.pages_eq hc ▸ hx) he
  have hys : ∀ q ∈ ys, q ∈ [u.item] ∨ q ∈ c.pages := by
    intro q hq
    rw [List.mem_singleton, hitems]
    exact Collection.mem_replaced hperm hq
  rw [answer_of_changed hchanged, hfollowed, hrevised]
  cases newId with
  | none =>
      rw [Option.getD_some, Collection.replace_pages hc]
      exact .insertedPages hc hnew hys (.inl rfl) (.inl rfl)
  | some id =>
      simp only [Option.map_some, Option.getD_some, reselect_eq, Collection.replace_pages hc]
      refine .insertedPages hc hnew hys ?_ (.inl rfl)
      split
      · exact .inr (.inl (Value.isText_text id))
      · exact .inl rfl

theorem delete_origin {place : Nat} {ids : List Value} (hc : p.composition = some c)
    (hq : without p place ids = .ok q) : Project.Origin ctx p name q := by
  have hnew : ∀ q ∈ ([] : List Page),
      Page.Origin ctx p name q ∧ ∀ e ∈ q.elements, Element.Origin ctx p name e := by simp
  obtain ⟨pages, rfl, ⟨rfl, -⟩ | ⟨page, hpage, rfl⟩⟩ := without_eq_ok hc hq
  all_goals rw [Collection.replace_pages hc]
  · exact .insertedPages hc hnew (fun q hq => .inr (List.mem_filter.mp hq).1) (.inl rfl) (.inl rfl)
  · exact .insertedPages hc hnew (fun q hq => .inr (List.mem_filter.mp hq).1)
      (.inr (.inr ⟨page, hpage, rfl⟩)) (.inr rfl)

end Pages

/-! ## Settings -/

namespace Settings

theorem title_changed (hreads : ctx.Reads changeGrammar p c args) :
    (changed p c args).name = p.name ∨ (changed p c args).name.IsText := by
  show (args.get? "title").getD p.name = p.name ∨ ((args.get? "title").getD p.name).IsText
  cases htitle : args.get? "title" with
  | none => exact .inl rfl
  | some v => exact .inr (Grammar.isText_of_parse rfl rfl hreads.args htitle)

theorem change_origin (hreads : ctx.Reads changeGrammar p c args) :
    Project.Origin ctx p "set-comp" (changed p c args) :=
  have hc := hreads.composition
  { (Project.Origin.refl : Project.Origin ctx p "set-comp" p) with
    title := title_changed hreads
    composition := by
      rintro _ ⟨⟩
      exact .changed hreads rfl rfl rfl
    pages := fun _ hpage => .kept (Project.pages_eq hc ▸ hpage)
    elements := fun _ hpage _ => .kept (Project.pages_eq hc ▸ hpage)
    audios := by
      rintro _ ⟨⟩ a ha
      exact .kept hc ha
    selectedPage := .inl rfl }

theorem zoom_origin {x : Binary64} (hreads : ctx.Reads zoomGrammar p c args)
    (hx : requirePercentage args = .ok x) :
    Project.Origin ctx p "zoom-tl" (p.withState fun s =>
      { s with zoomLevel := .float ((clampPercentage x).div (Binary64.ofInt 100)) }) :=
  { (Project.Origin.refl : Project.Origin ctx p "zoom-tl" p) with zoom := .changed hreads hx }

end Settings

end Commands

/-! ## All commands -/

/-- Every part of the project after a command that came to an end was there before, or is one that
the command makes. -/
theorem Effect.origin {o : Outcome} (h : Effect ctx name o)
    (hp : ctx.project = some p) : Project.Origin ctx p name (o.revised.getD p) := by
  cases h with
  | createTrack hreads hsrc _ ha hq ho =>
      cases hreads.project.symm.trans hp
      rw [ho.revised]
      exact Tracks.create_origin hreads hsrc ha hq
  | changeTrack hreads _ _ hu ho =>
      cases hreads.project.symm.trans hp
      rw [ho.revised]
      exact Tracks.change_origin hreads hu
  | deleteTrack hreads _ _ hq ho =>
      cases hreads.project.symm.trans hp
      rw [ho.revised]
      exact Tracks.delete_origin hq
  | createElement hr hreads _ he _ hq ho =>
      cases hreads.project.symm.trans hp
      rw [ho.revised]
      exact Elements.create_origin hr hreads he hq
  | changeElement hreads haim _ hlocate hopts hu ho =>
      cases hreads.project.symm.trans hp
      rw [ho.revised]
      exact Elements.change_origin hreads haim hlocate hopts hu
  | deleteElement hreads _ _ hq ho =>
      cases hreads.project.symm.trans hp
      rw [ho.revised]
      exact Elements.delete_origin hq
  | createNote hreads htext _ hq ho =>
      cases hreads.project.symm.trans hp
      rw [ho.revised]
      exact Notes.create_origin hreads htext hq
  | changeNote hreads _ hu hv ho =>
      cases hreads.project.symm.trans hp
      rw [ho.revised]
      exact Notes.change_origin hreads hu hv
  | deleteNote hreads _ _ hq ho =>
      cases hreads.project.symm.trans hp
      rw [ho.revised]
      exact Notes.delete_origin hq
  | createPages hreads hsource hpages hq ho =>
      cases hreads.project.symm.trans hp
      rw [ho.revised]
      exact Pages.create_origin hreads.composition hsource hpages hq
  | changePage hreads _ _ hnewId hu ho =>
      cases hreads.project.symm.trans hp
      rw [ho.revised]
      exact Pages.change_origin rfl hreads hnewId hu
  | deletePages hreads _ _ _ hq ho =>
      cases hreads.project.symm.trans hp
      rw [ho.revised]
      exact Pages.delete_origin hreads.composition hq
  | changeComposition hreads ho =>
      cases hreads.project.symm.trans hp
      rw [ho.revised]
      split
      · exact .refl
      · exact Settings.change_origin hreads
  | zoom hreads hx hlevel ho =>
      cases hreads.project.symm.trans hp
      subst hlevel
      rw [ho.revised]
      split
      · exact .refl
      · exact Settings.zoom_origin hreads hx
  | listNotes _ _ ho | listFiles _ ho | listCommands _ ho | displayPage _ _ _ ho
  | displayComposition _ ho =>
      rw [ho.revised]
      exact .refl

end Montage
