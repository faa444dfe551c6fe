/-
# The copy of an element

With `--copy` a new element starts from another element of its kind.  Its fields come from
four sources, each of which counts more than those above it:

    the defaults of the kind    nothing of them is left in a copy
    the copied element          every field but the id
    the stored file             place and size of an image or a video, if the file storage
                                knows the size of its source
    the options                 what the line gives

So a copy has the id that was drawn for it, the fields that the line gives, and all others
from the copied element, but for the place and the size of a medium whose source is a
stored file of known size (`Elements.CopyOf`).
-/
import Montage.Proofs.Overflow

namespace Montage

namespace Elements

/-! ## Copies -/

/-- The fields for the place and the size. -/
def placeFields : List Element.Field := [.left, .top, .width, .height]

/-- The file storage knows the size of the source of a medium: of the given source, or else of the
one that `e` has. -/
def Resized (r : Recipe) (files : Option FileStorage) (args : Arguments) (e : Element)
    (width height : Value) : Prop :=
  r.kind ≠ .text ∧ storedSize files (((args.nonempty? "src").map Value.text).getD e.src) =
    .ok (some (width, height))

/-- `new` is a copy of `e` made from these arguments: it has what is given, and otherwise what `e`
has, except for the id and for the place and the size of a stored file. -/
structure CopyOf (r : Recipe) (c : Composition) (files : Option FileStorage) (args : Arguments)
    (e new : Element) : Prop where
  given : ∀ (f : Element.Field) (v : Value), args.get? f.name = some v → new.get f = v
  kept : ∀ f : Element.Field, f ≠ .id → args.get? f.name = none →
    (f ∈ placeFields → ∀ width height, ¬ Resized r files args e width height) →
    new.get f = e.get f
  resized : ∀ width height, Resized r files args e width height →
    ∃ fitted, centered c width height e = .ok fitted ∧
      ∀ f ∈ placeFields, args.get? f.name = none → new.get f = fitted.get f
  extra : new.extra = e.extra

variable {ctx : Context} {c : Composition} {r : Recipe} {files : Option FileStorage}
  {args : Arguments} {e d f : Element}

/-! ## The sources in their order -/

/-- A copy starts from the element that the line names, which is of the same kind. -/
theorem start_copy {kind : ElementKind} {id : String} (hcopy : args.nonempty? "copy" = some id)
    (h : start c kind args = .ok d) :
    ∃ holder, c.findElement? (.text id) = some (holder, d) ∧ d.kind = kind := by
  unfold start at h
  rw [hcopy] at h
  dsimp only at h
  unfold copySource at h
  split at h
  · cases h
  · rename_i holder source hfind
    split at h
    · rename_i hkind
      cases h
      exact ⟨holder, hfind, hkind⟩
    · cases h

/-- What is in the middle of the canvas differs from what was put there in place and size only. -/
theorem get_centered {width height : Value} (h : centered c width height d = .ok f)
    {k : Element.Field} (hk : k ∉ placeFields) : f.get k = d.get k := by
  obtain ⟨left, top, -, -, rfl⟩ := centered_iff.mp h
  cases k with
  | left | top | width | height => exact absurd (by decide) hk
  | _ => rfl

/-- The size of a stored file counts more than what the element has. -/
theorem fitted_cases
    (h : if r.kind = .text then f = d else fitted c files args d = .ok f) :
    (∃ width height, Resized r files args d width height ∧ centered c width height d = .ok f) ∨
      (f = d ∧ ∀ width height, ¬ Resized r files args d width height) := by
  split at h
  · rename_i hkind
    exact .inr ⟨h, fun _ _ hresized => hresized.1 hkind⟩
  · rename_i hkind
    obtain ⟨size, hsize, hf⟩ := fitted_iff.mp h
    cases size with
    | none =>
        refine .inr ⟨(Except.ok.inj hf).symm, fun _ _ hresized => ?_⟩
        cases hsize.symm.trans hresized.2
    | some size => exact .inl ⟨size.1, size.2, ⟨hkind, hsize⟩, hf⟩

/-- What the line gives counts most. -/
theorem copyOf_draft {id : String} (hr : r ∈ recipes) (hargs : ctx.parse r.grammar = .ok args)
    (hcopy : args.nonempty? "copy" = some id) (h : draft r c files args = .ok f) (new : String) :
    ∃ holder e, c.findElement? (.text id) = some (holder, e) ∧ e.kind = r.kind ∧
      CopyOf r c files args e { f with id := .text new } := by
  obtain ⟨e, d, hstart, hfitted, hassign⟩ := draft_steps h
  obtain ⟨holder, hfind, hkind⟩ := start_copy hcopy hstart
  have hfitted := fitted_cases hfitted
  have hextra : d.extra = e.extra := by
    rcases hfitted with ⟨_, _, -, hcentered⟩ | ⟨rfl, -⟩
    · obtain ⟨_, _, -, -, rfl⟩ := centered_iff.mp hcentered
      rfl
    · rfl
  have hfields (name : String) (hname : name ∉ createFields) : name ∉ r.grammar.fields :=
    fields_of_recipe hr ▸ hname
  have hget {k : Element.Field} (hk : k ≠ .id) :
      ({ f with id := .text new } : Element).get k = f.get k := by
    cases k with
    | id => exact absurd rfl hk
    | _ => rfl
  have hkept {k : Element.Field} (hnone : args.get? k.name = none) : f.get k = d.get k :=
    Changes.assign_kept Element.lawful hargs hnone hassign
  refine ⟨holder, e, hfind, hkind, ?given, ?kept, ?resized, ?beside⟩
  case given =>
    intro k v hv
    have hk : k ≠ .id := by
      rintro rfl
      exact hfields "id" (by decide)
        (Grammar.mem_fields_of_parse hargs _ (Value.mem_of_lookup hv))
    have hname : k.name ∉ ["copy"] := by cases k <;> decide
    rw [hget hk]
    exact Changes.assign_given Element.lawful hargs hv hname hassign
  case kept =>
    intro k hk hnone hplace
    rw [hget hk, hkept hnone]
    rcases hfitted with ⟨width, height, hresized, hcentered⟩ | ⟨rfl, -⟩
    · exact get_centered hcentered fun hmem => hplace hmem width height hresized
    · rfl
  case resized =>
    intro width height hresized
    rcases hfitted with ⟨width', height', hresized', hcentered⟩ | ⟨-, hnot⟩
    · cases hresized.2.symm.trans hresized'.2
      refine ⟨d, hcentered, fun k hk hnone => ?_⟩
      have hid : k ≠ .id := by
        rintro rfl
        exact absurd hk (by decide)
      rw [hget hid, hkept hnone]
    · exact absurd hresized (hnot width height)
  case beside =>
    show f.extra = e.extra
    rw [← hextra]
    exact Changes.assign_keeps Element.setOnlyBy_extra hassign
      (Grammar.not_given hargs (hfields _ (by decide)) _)

end Elements

/-! ## Lines -/

namespace Session

open Elements (Recipe recipes CopyOf)

/-- A successful line that adds an element with `--copy` adds a copy of the element that it names at
the end of the selected page: it has the fields that the line gives, and all others but the id from
the copied element, unless the file storage knows the size of the source of an image or a video; in
this case its place and its size, as far as they are not given, are those of the stored file in the
middle of the canvas. -/
theorem answer_copies {p : Project} (ids : IdSource) (collaborators : Collaborators)
    {line : String} {command : Command} {tokens : List String} {r : Recipe} (hr : r ∈ recipes)
    (hcalls : Calls line command tokens) (hname : command.name = r.grammar.command)
    {args : Arguments} (hargs : r.grammar.parse tokens (.int p.fps) = .ok args) {id : String}
    (hcopy : args.nonempty? "copy" = some id) (j : Journal)
    (hsuccess : (answer ids collaborators (some p) line j).success = true) :
    ∃ c page xs holder e new, p.composition = some c ∧ p.selectedPage? = some page ∧
      (Collection.elements page.id).items p = .ok xs ∧
      c.findElement? (.text id) = some (holder, e) ∧ e.kind = r.kind ∧
      (answer ids collaborators (some p) line j).revised =
        some ((Collection.elements page.id).replace p (xs ++ [new])) ∧
      (answer ids collaborators (some p) line j).entityId = new.id ∧
      CopyOf r c collaborators.files args e new := by
  have heffect := effect_of_success hcalls hsuccess
  generalize hother : command.name = name at heffect
  rw [hother] at hname
  cases heffect with
  | createElement hr' hreads hpage he hid hq ho =>
      obtain rfl := Elements.recipe_unique hr hr' hname.symm
      obtain rfl := Option.some.inj hreads.project
      obtain rfl := Except.ok.inj (hreads.args.symm.trans hargs)
      obtain ⟨holder, e, hfind, hkind, hcopied⟩ :=
        Elements.copyOf_draft hr hreads.args hcopy he _
      obtain ⟨xs, hxs, -, rfl⟩ := Collection.append_eq_ok.mp hq
      exact ⟨_, _, xs, holder, e, _, hreads.composition, hpage, hxs, hfind, hkind, ho.revised,
        ho.entityId, hcopied⟩
  | _ => exact absurd (hname ▸ Elements.command_mem hr) (by decide)

/-- A page with an image. -/
def gallery : Project where
  id := "project"
  name := .text "Gallery"
  composition := some {
    pages := [{
      id := .text "page", name := .text "Page", duration := .int 30
      elements := [{
        id := .text "i", kind := .image, src := .text "a.png"
        left := .int 1, top := .int 2, width := .int 30, height := .int 40 }] }] }

/-- Without a file storage a copy of an image with another source has its place and its size. -/
theorem image_copied_in_place :
    let o := answer .counting {} (some gallery) "/new-image --copy i --src b.png" {}
    Elements.image ∈ recipes ∧ o.success = true ∧ ∃ c args holder e new,
      gallery.composition = some c ∧ c.findElement? (.text "i") = some (holder, e) ∧
      o.entityId = new.id ∧ CopyOf Elements.image c none args e new ∧
      new.src = .text "b.png" ∧ new.left = e.left ∧ new.width = e.width := by
  intro o
  have hr : Elements.image ∈ recipes := by simp [recipes]
  have hcalls : Calls "/new-image --copy i --src b.png" Builtin.elements[1]
      ["--copy", "i", "--src", "b.png"] := ⟨"new-image", by decide +kernel, rfl⟩
  let args : Arguments := [("src", .text "b.png"), ("copy", .text "i")]
  have hargs : Elements.image.grammar.parse ["--copy", "i", "--src", "b.png"] (.int gallery.fps) =
      .ok args := rfl
  have hsuccess : o.success = true := by decide +kernel
  obtain ⟨c, _, _, holder, e, new, hc, -, -, hfind, -, -, hid, hcopied⟩ :=
    answer_copies .counting {} hr hcalls rfl hargs rfl {} hsuccess
  have hunsized : ∀ width height, ¬ Elements.Resized Elements.image none args e width height := by
    rintro width height ⟨-, hsize⟩
    cases hsize
  exact ⟨hr, hsuccess, c, args, holder, e, new, hc, hfind, hid, hcopied, hcopied.given .src _ rfl,
    hcopied.kept .left (by decide) rfl fun _ => hunsized,
    hcopied.kept .width (by decide) rfl fun _ => hunsized⟩

/-- With the size of its source in the file storage a copy leaves the place and the size of its
image. -/
theorem image_copied_out_of_place :
    let record : Value :=
      .object [("name", .text "a.png"), ("width", .int 400), ("height", .int 300)]
    let o := answer .counting { files := some (.lists [record] false) } (some gallery)
      "/new-image --copy i" {}
    Calls "/new-image --copy i" Builtin.elements[1] ["--copy", "i"] ∧ o.success = true ∧
      o.revised.map (fun q => q.pages.flatMap fun page => page.elements.map fun e =>
        [e.left, e.top, e.width, e.height].map (·.display)) =
          some [["1", "2", "30", "40"], ["760", "390", "400", "300"]] := by
  refine ⟨⟨"new-image", by decide +kernel, rfl⟩, ?_, ?_⟩
  all_goals decide +kernel

end Session

end Montage
