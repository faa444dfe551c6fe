/-
# What elements of a kind do not have

An element is one record for all kinds.  If it is true to its kind, the fields that the kind has no
use for are empty:

    text                   no source
    image, video, group    no text, and nothing of its style

`ElementKind.foreign` is this table, and it is the table that the program goes by: what may not
be changed on an element are the foreign fields of its kind (`checkOptions_eq_ok`), and a new
element gets no options for those of its own (`fits_recipe`).  All other fields that an element is
made with come from the defaults or from another element of its kind, and a place and a size never
matter.  So a line leaves elements true to their kinds (`answer_trueToKind`).
-/
import Montage.Proofs.Complete
import Montage.Proofs.Reach

namespace Montage

/-- The fields that no element of a kind has. -/
def ElementKind.foreign : ElementKind → List Element.Field
  | .text => [.src]
  | .image | .video | .group =>
    [.text, .fontSize, .color, .fontFamily, .fontWeight, .textAlign]

theorem ElementKind.mem_foreign {kind : ElementKind} {f : Element.Field} (h : f ∈ kind.foreign) :
    f ∈ text.foreign ++ image.foreign := by
  cases kind with
  | text => exact List.mem_append_left _ h
  | image | video | group => exact List.mem_append_right _ h

/-- The element has nothing in the fields that are foreign to its kind. -/
def Element.TrueToKind (e : Element) : Prop := ∀ f ∈ e.kind.foreign, (e.get f).isNull = true

instance (e : Element) : Decidable e.TrueToKind :=
  inferInstanceAs (Decidable (∀ f ∈ e.kind.foreign, (e.get f).isNull = true))

/-- All elements are true to their kind. -/
def Project.TrueToKind (p : Project) : Prop := ∀ page ∈ p.pages, ∀ e ∈ page.elements, e.TrueToKind

instance (p : Project) : Decidable p.TrueToKind :=
  inferInstanceAs (Decidable (∀ page ∈ p.pages, ∀ e ∈ page.elements, e.TrueToKind))

namespace Element

variable {e d : Element} {kind : ElementKind}

/-- The rule for the fields of an element of a kind: the foreign ones are empty. -/
def Foreign (kind : ElementKind) : Entity.Field Element → Value → Prop :=
  fun f v => f ∈ kind.foreign → v.isNull = true

theorem trueToKind_iff : e.TrueToKind ↔ Keeps (Foreign e.kind) e := Iff.rfl

/-- Whether an element is true to its kind shows in the fields that are foreign to some kind. -/
theorem TrueToKind.congr (hd : d.TrueToKind) (hkind : e.kind = d.kind)
    (hget : ∀ f ∈ ElementKind.text.foreign ++ ElementKind.image.foreign, e.get f = d.get f) :
    e.TrueToKind := by
  intro f hf
  rw [hget f (ElementKind.mem_foreign hf)]
  exact hd f (hkind ▸ hf)

/-- Changes that name no foreign field fit the rule. -/
theorem fit_of_foreign {changes : Changes}
    (h : ∀ c ∈ changes, ∀ f ∈ kind.foreign, c.1 ≠ f.name) :
    Changes.Fit (Foreign kind) changes := by
  intro c hc f hf hforeign
  exact absurd (Entity.name_of_field? hf).symm (h c hc f hforeign)

end Element

namespace Elements

variable {e : Element} {kind : ElementKind} {changes : Changes}

/-! ## Options -/

theorem foreign_text : ElementKind.text.foreign.map Element.Field.name = ["src"] := rfl

theorem foreign_of_ne (h : kind ≠ .text) :
    kind.foreign.map Element.Field.name = textOnlyFields := by
  cases kind with
  | text => exact absurd rfl h
  | image | video | group => rfl

/-- An element can be changed exactly if none of the changes is of a foreign field. -/
theorem checkOptions_eq_ok :
    checkOptions e changes = .ok () ↔ ∀ c ∈ changes, ∀ f ∈ e.kind.foreign, c.1 ≠ f.name := by
  have hnames : (∀ c ∈ changes, ∀ f ∈ e.kind.foreign, c.1 ≠ f.name) ↔
      ∀ name ∈ e.kind.foreign.map Element.Field.name,
        ¬ (changes.any fun c => c.1 == name) = true := by
    simp only [List.forall_mem_map, List.any_eq_true, beq_iff_eq, not_exists, not_and]
    exact ⟨fun h f hf c hc => h c hc f hf, fun h c hc f hf => h f hf c hc⟩
  rw [hnames]
  unfold checkOptions
  by_cases hkind : e.kind = .text
  · rw [hkind, foreign_text, List.forall_mem_singleton, if_pos rfl]
    dsimp only
    split <;> simp [*]
  · rw [foreign_of_ne hkind, if_neg hkind, ← List.filter_eq_nil_iff, ← List.isEmpty_iff]
    dsimp only
    split <;> simp [*]

/-- The command for a new element has no option for a foreign field. -/
theorem fits_recipe {r : Recipe} (hr : r ∈ recipes) :
    r.grammar.Fits (Element.Foreign r.kind) := by
  have hfree : Restricts (r.kind.foreign.map Element.Field.name) (Element.Foreign r.kind) :=
    fun f hf _ hforeign => absurd (List.mem_map_of_mem hforeign) hf
  simp only [recipes, List.mem_cons, List.not_mem_nil, or_false] at hr
  rcases hr with rfl | rfl | rfl
  all_goals exact .of_restricts hfree (fun o ho => absurd ho List.not_mem_nil) rfl

/-! ## New elements -/

theorem Placed.trueToKind {d : Element} (h : Placed d e) (hd : d.TrueToKind) : e.TrueToKind := by
  obtain ⟨_, _, _, _, -, rfl⟩ := h
  exact hd.congr rfl (by simp [ElementKind.foreign, Element.get])

theorem plainMedium_trueToKind : (plainMedium kind).TrueToKind := by
  cases kind <;> decide

/-- A new element starts true to its kind if all elements are that it may copy. -/
theorem start_trueToKind {c : Composition} {args : Arguments}
    (hc : ∀ page ∈ c.pages, ∀ e ∈ page.elements, e.TrueToKind) (h : start c kind args = .ok e) :
    e.TrueToKind := by
  rcases start_eq_ok h with ⟨page, hpage, he⟩ | rfl | ⟨_, _, hcentered⟩
  · exact hc page hpage e he
  · decide
  · exact (centered_placed hcentered).trueToKind plainMedium_trueToKind

/-- A new element is true to its kind if all elements are that it may copy. -/
theorem draft_trueToKind {r : Recipe} {c : Composition} {files : Option FileStorage}
    {args : Arguments} {tokens : List String} {fps : Number} (hr : r ∈ recipes)
    (hargs : r.grammar.parse tokens fps = .ok args)
    (hc : ∀ page ∈ c.pages, ∀ e ∈ page.elements, e.TrueToKind) (h : draft r c files args = .ok e) :
    e.TrueToKind := by
  obtain ⟨d, f, hd, hf, he⟩ := draft_eq_ok h
  have hstart : d.TrueToKind := start_trueToKind hc hd
  have hplaced : f.TrueToKind ∧ f.kind = r.kind := by
    rcases hf with rfl | hf
    · exact ⟨hstart, start_kind hd⟩
    · exact ⟨hf.trueToKind hstart, hf.kind.trans (start_kind hd)⟩
  have hgiven : Changes.Fit (Element.Foreign r.kind) (args.except ["copy"]) :=
    ((fits_recipe hr).arguments hargs).except _
  have hkeeps : Keeps (Element.Foreign r.kind) e :=
    Changes.assign_fields Element.lawful he hgiven
      (hplaced.2 ▸ Element.trueToKind_iff.mp hplaced.1)
  exact Element.trueToKind_iff.mpr (draft_kind h ▸ hkeeps)

end Elements

/-! ## Projects -/

variable {ctx : Context} {p q : Project} {name : String}

theorem Element.Origin.trueToKind {e : Element} (h : Element.Origin ctx p name e)
    (hp : p.TrueToKind) : e.TrueToKind := by
  cases h with
  | kept hpage he => exact hp _ hpage e he
  | copied _ hpage he =>
      exact (hp _ hpage _ he).congr rfl (by simp [ElementKind.foreign, Element.get])
  | created _ hr hreads hdraft =>
      have hdraft := Elements.draft_trueToKind hr hreads.args
        (Project.pages_eq hreads.composition ▸ hp) hdraft
      exact hdraft.congr rfl (by simp [ElementKind.foreign, Element.get])
  | changed hreads _ _ hpage hd hopts hmerge =>
      have hkind := Changes.merge_keeps Element.setOnlyBy_kind hmerge fun _ _ => List.not_mem_nil
      have hd := hp _ (Project.pages_eq hreads.composition ▸ hpage) _ hd
      have hgiven := Element.fit_of_foreign (Elements.checkOptions_eq_ok.mp hopts)
      refine Element.trueToKind_iff.mpr (hkind ▸ ?_)
      exact Changes.merge_fields Element.lawful hmerge hgiven (Element.trueToKind_iff.mp hd)

theorem Leads.trueToKind (h : Leads p q) (hp : p.TrueToKind) : q.TrueToKind := by
  rcases h.cases with rfl | ⟨ctx, name, o, hctx, heffect, rfl⟩
  · exact hp
  · exact fun page hpage e he => ((heffect.origin hctx).elements page hpage e he).trueToKind hp

theorem Reaches.trueToKind (h : Reaches p q) (hp : p.TrueToKind) : q.TrueToKind := by
  induction h with
  | refl => exact hp
  | tail _ hleads ih => exact hleads.trueToKind ih

namespace Session

/-- Whatever a line does to a project whose elements are true to their kinds, those of the project
after it are; and so they are after each of a sequence of lines. -/
theorem answer_trueToKind {p : Project} (hp : p.TrueToKind) :
    (∀ ids collaborators line j, ∃ q,
      (answer ids collaborators (some p) line j).projectAfter (some p) = some q ∧ q.TrueToKind) ∧
    ∀ q, Reaches p q → q.TrueToKind := by
  refine ⟨fun ids collaborators line j => ?_, fun q h => h.trueToKind hp⟩
  have hafter := Outcome.projectAfter_some (answer ids collaborators (some p) line j) p
  exact ⟨_, hafter, Leads.trueToKind ⟨ids, collaborators, line, j, hafter⟩ hp⟩

/-- A small project with an image above its text. -/
def illustrated : Project :=
  { Project.small "note" with
    composition := some {
      pages := (Project.small "note").pages.map fun page =>
        { page with
          elements := page.elements ++
            [{ id := .text "image", kind := .image, src := .text "cat.png" }] } } }

/-- The image takes another source, and stays without a text. -/
theorem illustrated_trueToKind :
    let line := "/set-element image --src dog.png"
    illustrated.TrueToKind ∧
      (answer .counting {} (some illustrated) line {}).revised.isSome = true ∧
      ∃ q, (answer .counting {} (some illustrated) line {}).projectAfter (some illustrated) =
        some q ∧ q.TrueToKind := by
  have htrue : illustrated.TrueToKind := by decide
  exact ⟨htrue, by decide +kernel, (answer_trueToKind htrue).1 .counting {} _ {}⟩

end Session

end Montage
