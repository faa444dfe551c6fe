/-
# Two ways to an element

An element is looked up by its id in two ways.  The search of the composition
(`findElement?`) goes through the pages in their order and stops at the first element with
the id, on the page that holds it.  The commands that change or delete an element
(`Elements.locate`) go on from there by ids alone: from the page that was found to its id,
from this id to the first page that has it, and on that page to the first element with the
id that they were given.

Nothing keeps a document from giving one id to two pages.  What the second way comes to
depends on the page that the search found:

    none                                     both report that there is no such element
    it is the first page with its id         both find the same element
    a page before it has the same id         the element is hidden, and the second way misses it

So the two ways disagree about the hidden elements and about nothing else
(`look_ups_agree_iff`), and then by a miss: they never find two elements, for on a page before
the one that was found no element has the id.

No line hides the elements of a document whose pages have ids of their own: the ids of new
pages are drawn against those that are taken, and a page gets another id only if no page has
it (`Effect.distinct_pageIds`).
-/
import Montage.Proofs.Designated
import Montage.Proofs.Remaining

namespace Montage

variable {ctx : Context} {p q : Project} {c : Composition} {id : Value}

/-- The first element with the id is on a page behind another page of the same id. -/
def Composition.Hidden (c : Composition) (id : Value) : Prop :=
  ∃ before page after e, c.pages = before ++ page :: after ∧ Project.Owner id before page e ∧
    ∃ b ∈ before, b.id = page.id

namespace Elements

/-- The problem that the page that was reached has no element with the id. -/
def notOnPage (id : Value) : Fault :=
  .notFound "Element Not Found" ("Element with ID '" ++ id.display ++ "' not found.\n\n" ++
    "Use `/ls-page` to see the elements of a page.")

/-- The commands find the element that the search finds, or both report that there is none. -/
def Agree (p : Project) (c : Composition) (id : Value) : Prop :=
  match c.findElement? id with
  | some (page, e) => locate p id = .ok (page.id, e)
  | none => locate p id = .error (Collection.noElement id)

/-- The command is to change or to delete the element with the id: the line gives this id, or it
gives none and the element is selected. -/
inductive Concerns (ctx : Context) (p : Project) (id : Value) (name : String) : Prop
  | change {args : Arguments} : name = "set-element" →
      ctx.parse changeGrammar = .ok args →
      target p [args.nonempty? "id", args.nonempty? "target"] = .ok id → Concerns ctx p id name
  | delete {args : Arguments} : name = "del-elem" →
      ctx.parse deleteGrammar = .ok args →
      target p [args.nonempty? "id"] = .ok id → Concerns ctx p id name

/-! ## From the page that was found to the element -/

section Found
variable {before after : List Page} {page : Page} {e : Element}

theorem locate_of_found (hc : p.composition = some c) (h : c.findElement? id = some (page, e)) :
    locate p id =
      ((Collection.elements page.id).require p id).map fun r => (page.id, r.2) := by
  rw [locate, Collection.owning, Collection.requireComposition_eq_ok.mpr hc, ok_bind, h]
  show ((Collection.elements page.id).require p id >>= _) = _
  cases (Collection.elements page.id).require p id <;> rfl

theorem locate_of_not_found (hc : p.composition = some c) (h : c.findElement? id = none) :
    locate p id = .error (Collection.noElement id) := by
  rw [locate, Collection.owning, Collection.requireComposition_eq_ok.mpr hc, ok_bind, h]
  rfl

theorem locate_of_no_composition (h : p.composition = none) :
    locate p id = .error (.problem .noProject) := by
  rw [locate, Collection.owning, Project.requireComposition, h]
  rfl

theorem require_of_not_mem {pageId : Value} {es : List Element}
    (hitems : (Collection.elements pageId).items p = .ok es)
    (hnone : ∀ d ∈ es, Entity.hasId d id = false) :
    (Collection.elements pageId).require p id = .error (notOnPage id) := by
  rw [Collection.require, hitems, ok_bind, place?_eq_none.mpr hnone]
  rfl

/-- The id of the first page with it leads back to the page, and so to the element. -/
theorem locate_of_first (hc : p.composition = some c) (hpages : c.pages = before ++ page :: after)
    (howner : Project.Owner id before page e) (hfirst : FirstWithId page.id before page) :
    locate p id = .ok (page.id, e) := by
  obtain ⟨front, back, helements, hfront⟩ := find?_hasId_eq_some.mp howner.element
  have hitems : (Collection.elements page.id).items p = .ok (front ++ e :: back) :=
    Collection.items_elements.mpr ⟨c, before, page, after, hc, hpages, hfirst, helements⟩
  have hrequire : (Collection.elements page.id).require p id = .ok (front.length, e) :=
    Collection.require_eq_ok.mpr ⟨front, back, hitems, rfl, hfront⟩
  rw [locate_of_found hc (Project.findElement?_eq_some.mpr ⟨before, after, hpages, howner⟩),
    hrequire]
  rfl

/-- The id of a page behind another one with this id leads to a page without the element. -/
theorem locate_of_behind (htext : page.id.IsText) (hc : p.composition = some c)
    (hpages : c.pages = before ++ page :: after) (howner : Project.Owner id before page e)
    {b : Page} (hb : b ∈ before) (hid : b.id = page.id) :
    locate p id = .error (notOnPage id) := by
  have hsome : (before.find? (Entity.hasId · page.id)).isSome = true :=
    List.find?_isSome.mpr ⟨b, hb, (hasId_iff htext).mpr hid⟩
  obtain ⟨x, hx⟩ := Option.isSome_iff_exists.mp hsome
  obtain ⟨front, rest, hbefore, hfirst⟩ := find?_hasId_eq_some.mp hx
  have hitems : (Collection.elements page.id).items p = .ok x.elements :=
    Collection.items_elements.mpr
      ⟨c, front, x, rest ++ page :: after, hc, by rw [hpages, hbefore]; simp, hfirst, rfl⟩
  rw [locate_of_found hc (Project.findElement?_eq_some.mpr ⟨before, after, hpages, howner⟩),
    require_of_not_mem hitems (howner.first x (List.mem_of_find?_eq_some hx))]
  rfl

end Found

theorem locate_of_hidden (htexts : ∀ id ∈ p.pageIds, id.IsText) (hc : p.composition = some c)
    (h : c.Hidden id) : locate p id = .error (notOnPage id) := by
  obtain ⟨before, page, after, e, hpages, howner, b, hb, hid⟩ := h
  have hmem : page ∈ p.pages := by rw [Project.pages_eq hc, hpages]; simp
  exact locate_of_behind (htexts _ (List.mem_map_of_mem hmem)) hc hpages howner hb hid

/-- The two ways agree about every element but the hidden ones. -/
theorem agree_iff (htexts : ∀ id ∈ p.pageIds, id.IsText) (hc : p.composition = some c) :
    Agree p c id ↔ ¬ c.Hidden id := by
  constructor
  · intro hagree hhidden
    have hmissed := locate_of_hidden htexts hc hhidden
    obtain ⟨before, page, after, e, hpages, howner, -⟩ := hhidden
    rw [Agree, Project.findElement?_eq_some.mpr ⟨before, after, hpages, howner⟩, hmissed] at hagree
    cases hagree
  · intro hseen
    unfold Agree
    split
    case h_1 page e hfound =>
      obtain ⟨before, after, hpages, howner⟩ := Project.findElement?_eq_some.mp hfound
      have hmem : page ∈ p.pages := by rw [Project.pages_eq hc, hpages]; simp
      have htext : page.id.IsText := htexts _ (List.mem_map_of_mem hmem)
      refine locate_of_first hc hpages howner ⟨(hasId_iff htext).mpr rfl, fun b hb => ?_⟩
      rw [← Bool.not_eq_true, hasId_iff htext]
      exact fun hid => hseen ⟨before, page, after, e, hpages, howner, b, hb, hid⟩
    case h_2 hnone => exact locate_of_not_found hc hnone

/-- Pages with ids of their own hide nothing. -/
theorem agree_of_distinct (hids : Distinct p.pageIds) (hc : p.composition = some c) :
    Agree p c id := by
  refine (agree_iff hids.texts hc).mpr ?_
  rintro ⟨before, page, after, e, hpages, -, b, hb, hid⟩
  have hdistinct : Distinct ((before ++ page :: after).map Entity.id) :=
    hpages ▸ Project.distinct_pages hids hc
  have htext : page.id.IsText := hdistinct.texts _ (List.mem_map_of_mem (by simp))
  have hno : Entity.hasId b page.id = false := hdistinct.firstWithId.first b hb
  rw [(hasId_iff htext).mpr hid] at hno
  cases hno

end Elements

/-! ## The ids of pages along lines -/

namespace Pages

/-- New pages with ids that were drawn. -/
theorem distinct_insert (hids : Distinct p.pageIds) {pages : List Page} {i : Int} {id : Value}
    (hc : p.composition = some c) (hnew : Fresh (c.pages.map (·.id)) (pages.map (·.id)))
    (hq : Collection.pages.insert p i pages = .ok q) : Distinct (withSelected q id).pageIds := by
  obtain ⟨xs, hxs, rfl⟩ := Collection.insert_eq_ok.mp hq
  obtain ⟨c', hc', rfl⟩ := Collection.items_pages.mp hxs
  cases hc.symm.trans hc'
  rw [Collection.replace_pages hc]
  refine (hnew.join (Project.distinct_pages hids hc)).perm ?_
  rw [← List.map_append]
  exact (perm_put c.pages pages _).map _

theorem distinct_without (hids : Distinct p.pageIds) (hc : p.composition = some c) {place : Nat}
    {ids : List Value} (hq : without p place ids = .ok q) : Distinct q.pageIds := by
  have hkept := (Project.distinct_pages hids hc).filter fun page => !ids.any (Entity.hasId page)
  obtain ⟨pages, rfl, ⟨rfl, -⟩ | ⟨page, -, rfl⟩⟩ := without_eq_ok hc hq
  all_goals
    rw [Collection.replace_pages hc]
    exact hkept

end Pages

/-- A command that comes to an end keeps the ids of pages distinct. -/
theorem Effect.distinct_pageIds {name : String} {o : Outcome} (h : Effect ctx name o)
    (hp : ctx.project = some p) (hids : Distinct p.pageIds) :
    Distinct (o.revised.getD p).pageIds := by
  rcases h.pageIds_cases hp with hsame | hname
  · rwa [hsame]
  cases h with
  | createPages hreads _ hpages hq ho =>
      cases hreads.project.symm.trans hp
      rw [ho.revised]
      exact Pages.distinct_insert hids hreads.composition (Pages.draft_fresh hpages).1 hq
  | changePage hreads hpage _ hnewId hu ho =>
      cases hreads.project.symm.trans hp
      rw [ho.revised]
      obtain ⟨_, _, _, hturns⟩ :=
        Pages.turns_of_update rfl hids hreads.composition hpage hnewId hu
      exact hturns.distinct
  | deletePages hreads _ _ _ hq ho =>
      cases hreads.project.symm.trans hp
      rw [ho.revised]
      exact Pages.distinct_without hids hreads.composition hq
  | createElement hr => exact absurd hname (Elements.command_not_mem hr (by decide))
  | _ => exact absurd hname (by decide)

theorem Leads.distinct_pageIds (h : Leads p q) (hids : Distinct p.pageIds) :
    Distinct q.pageIds := by
  rcases h.cases with rfl | ⟨ctx, name, o, hctx, heffect, rfl⟩
  · exact hids
  · exact heffect.distinct_pageIds hctx hids

theorem Reaches.distinct_pageIds (h : Reaches p q) (hids : Distinct p.pageIds) :
    Distinct q.pageIds := by
  induction h with
  | refl => exact hids
  | tail _ hleads ih => exact hleads.distinct_pageIds ih

/-! ## Lines about an element -/

theorem Elements.Concerns.name_mem {name : String} (h : Elements.Concerns ctx p id name) :
    name ∈ ["set-element", "del-elem"] := by
  cases h with
  | change hname | delete hname =>
      rw [hname]
      decide

/-- A command about an element has found it. -/
theorem Effect.exists_locate {name : String} {o : Outcome} (h : Effect ctx name o)
    (hp : ctx.project = some p) (hconcerns : Elements.Concerns ctx p id name) :
    ∃ r, Elements.locate p id = .ok r := by
  have hname := hconcerns.name_mem
  cases h with
  | changeElement hreads haim _ hlocate =>
      cases hreads.project.symm.trans hp
      cases hconcerns with
      | change _ hargs htarget =>
          cases hargs.symm.trans hreads.args
          cases htarget.symm.trans haim
          exact ⟨_, hlocate⟩
      | delete hdelete => exact absurd hdelete (by decide)
  | deleteElement hreads haim hlocate =>
      cases hreads.project.symm.trans hp
      cases hconcerns with
      | change hchange => exact absurd hchange (by decide)
      | delete _ hargs htarget =>
          cases hargs.symm.trans hreads.args
          cases htarget.symm.trans haim
          exact ⟨_, hlocate⟩
  | createElement hr => exact absurd hname (Elements.command_not_mem hr (by decide))
  | _ => exact absurd hname (by decide)

/-- A line about an element that the commands do not find is refused. -/
theorem Session.answer_refuses {ids : IdSource} {collaborators : Collaborators} {line : String}
    {command : Command} {tokens : List String} {f : Fault} (hcalls : Calls line command tokens)
    (hconcerns : Elements.Concerns (context ids collaborators (some p) tokens) p id command.name)
    (hmissed : Elements.locate p id = .error f) (j : Journal) :
    (answer ids collaborators (some p) line j).Refuses := by
  rcases answer_cases ids collaborators (some p) line j with
    hrefuses | ⟨command', tokens', hcalls', -, heffect⟩
  · exact hrefuses
  · obtain ⟨rfl, rfl⟩ := hcalls.unique hcalls'
    obtain ⟨r, hr⟩ := heffect.exists_locate rfl hconcerns
    cases hmissed.symm.trans hr

namespace Document

/-- For every project that a document gives and every id: the commands that change or delete an
element find the element that the search finds, or both report that there is none, unless the
element is hidden behind another page with the id of its page; then the commands report that it is
not there, and no line about it succeeds.  Whatever the commands find stands where the search finds
it.  If the document gives every page an id of its own then the two agree after any lines. -/
theorem look_ups_agree_iff {v : Value} (hread : project v = .ok p) :
    (p.composition = none → ∀ id, Elements.locate p id = .error (.problem .noProject)) ∧
    (∀ c id, p.composition = some c →
      (c.findElement? id = none ↔
        ∀ page ∈ c.pages, ∀ e ∈ page.elements, Entity.hasId e id = false) ∧
      (Elements.Agree p c id ↔ ¬ c.Hidden id) ∧
      (c.Hidden id → Elements.locate p id = .error (Elements.notOnPage id) ∧
        ∀ ids collaborators line command tokens j, Calls line command tokens →
          Elements.Concerns (Session.context ids collaborators (some p) tokens) p id
            command.name →
          (Session.answer ids collaborators (some p) line j).Refuses) ∧
      ∀ pageId e, Elements.locate p id = .ok (pageId, e) →
        ∃ before page after, c.pages = before ++ page :: after ∧ page.id = pageId ∧
          Project.Owner id before page e) ∧
    (p.pageIds.Nodup → ∀ q c id, Reaches p q → q.composition = some c → Elements.Agree q c id) := by
  have hids := project_textIds hread
  refine ⟨fun hnone id => Elements.locate_of_no_composition hnone, ?document, ?lines⟩
  case document =>
    intro c id hc
    refine ⟨Project.findElement?_eq_none, Elements.agree_iff hids.pages hc, fun hhidden => ?_,
      fun pageId e hfound => ?_⟩
    · have hmissed := Elements.locate_of_hidden hids.pages hc hhidden
      exact ⟨hmissed, fun ids collaborators line command tokens j hcalls hconcerns =>
        Session.answer_refuses hcalls hconcerns hmissed j⟩
    · obtain ⟨c', before, page, after, hc', hpages, -, howner, hid⟩ :=
        Project.locate_eq_ok hids hfound
      cases hc.symm.trans hc'
      exact ⟨before, page, after, hpages, hid, howner⟩
  case lines =>
    intro hnodup q c id hreaches hc
    exact Elements.agree_of_distinct (hreaches.distinct_pageIds ⟨hids.pages, hnodup⟩) hc

/-! ## Two pages with a text on each -/

/-- The document of a page with a text. -/
def pageWith (page text : String) : Value :=
  .object [
    ("id", .text page),
    ("elements", .list [.object [("id", .text text), ("type", .text "text")]])]

/-- A document with the text `x` on the page `a`, and the text `t` on the page behind it. -/
def twoTexts (second : String) : Value :=
  .object [("composition", .object [
    ("pages", .list [pageWith "a" "x", pageWith second "t"])])]

/-- What a document with two texts is read as. -/
def texting (second : String) : Project where
  id := ""
  name := .text "Untitled Project"
  composition := some {
    pages := [("a", "x"), (second, "t")].map fun (page, text) => {
      id := .text page, name := .text "", duration := .int 0, backgroundColor := .null
      elements := [{ id := .text text, kind := .text }] } }

theorem project_twoTexts (second : String) : project (twoTexts second) = .ok (texting second) := rfl

/-- The second text is found unless its page has the id of the first one.  With an id of its own it
is found also after the pages have changed places. -/
theorem look_ups_on_two_pages :
    (∃ c, project (twoTexts "a") = .ok (texting "a") ∧ (texting "a").composition = some c ∧
      ¬ c.Hidden (.text "x") ∧ c.Hidden (.text "t") ∧
      Elements.locate (texting "a") (.text "t") = .error (Elements.notOnPage (.text "t")) ∧
      (Session.answer .counting {} (some (texting "a")) "/del-elem --id t" {}).Refuses) ∧
    ∃ q c, project (twoTexts "b") = .ok (texting "b") ∧ (texting "b").pageIds.Nodup ∧
      Leads (texting "b") q ∧ q.composition = some c ∧
      q.pageIds.map (·.display) = ["b", "a"] ∧ Elements.Agree q c (.text "t") := by
  refine ⟨?namesakes, ?own⟩
  case namesakes =>
    obtain ⟨c, hc⟩ : ∃ c, (texting "a").composition = some c := ⟨_, rfl⟩
    obtain ⟨-, hdocument, -⟩ := look_ups_agree_iff (project_twoTexts "a")
    have hagree : Elements.Agree (texting "a") c (.text "x") := by
      cases hc
      rfl
    have hhidden : c.Hidden (.text "t") := by
      cases hc
      exact ⟨[_], _, [], _, rfl, ⟨by decide, rfl⟩, _, List.mem_singleton_self _, rfl⟩
    obtain ⟨hmissed, hlines⟩ := (hdocument c (.text "t") hc).2.2.1 hhidden
    obtain ⟨command, hcalls, hname⟩ : ∃ command, Calls "/del-elem --id t" command ["--id", "t"] ∧
        command.name = "del-elem" := exists_calls (by decide +kernel) (by decide +kernel)
    refine ⟨c, rfl, hc, (hdocument c (.text "x") hc).2.1.mp hagree, hhidden, hmissed, ?_⟩
    exact hlines _ _ _ _ _ _ hcalls (.delete hname rfl rfl)
  case own =>
    have hnodup : (texting "b").pageIds.Nodup :=
      List.Nodup.map (f := Value.text) (l := ["a", "b"]) (fun _ _ h => Value.text.inj h)
        (by decide)
    let o := Session.answer .counting {} (some (texting "b")) "/set-page --id b --before a" {}
    have hleads : Leads (texting "b") (o.revised.getD (texting "b")) :=
      ⟨_, _, _, _, o.projectAfter_some _⟩
    have hmoved : (o.revised.getD (texting "b")).pageIds.map (·.display) = ["b", "a"] := by
      decide +kernel
    have hsome : (o.revised.getD (texting "b")).composition.isSome = true := by decide +kernel
    obtain ⟨c, hc⟩ := Option.isSome_iff_exists.mp hsome
    refine ⟨_, c, rfl, hnodup, hleads, hc, hmoved, ?_⟩
    exact (look_ups_agree_iff (project_twoTexts "b")).2.2 hnodup _ c _ (.single hleads) hc

/-- The search finds a text, and the page that owns it is named by its id; but under this id the
page before it is found, which has no such text. -/
theorem namesake_hides_text :
    project (twoTexts "a") = .ok (texting "a") ∧
      ∃ c page e, (texting "a").composition = some c ∧
        c.findElement? (.text "t") = some (page, e) ∧
        Collection.owning (texting "a") (.text "t") = .ok (.text "a") ∧
        (Collection.elements (.text "a")).require (texting "a") (.text "t") =
          .error (Elements.notOnPage (.text "t")) ∧
        ¬ Elements.Agree (texting "a") c (.text "t") := by
  refine ⟨rfl, _, _, _, rfl, rfl, rfl, rfl, ?_⟩
  intro hagree
  cases hagree

end Document
end Montage
