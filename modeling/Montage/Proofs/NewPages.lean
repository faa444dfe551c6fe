/-
# New pages

`/new-page` puts as many pages as asked for behind the selected one, or at the start if
there are no pages, and selects the first of them with no element.

    pages before       take k ++ drop k           k is one past the place of the selected page
    pages after        take k ++ new ++ drop k

Without `--copy` the new pages are blank, numbered from the number of pages on.  With it
each is the page named, under an id and a name of its own, with its elements in their
order under ids of their own.

Two loops draw these ids, the one for the elements inside the one for the pages, and
each draw is against everything drawn so far by its loop.  That the ids are fresh is
proved where `Fresh` is; here the same two inductions say what else the loops make
(`copyElements_copies`, `copies_copies`).
-/
import Montage.Proofs.Aim

namespace Montage

/-! ## Where the pages go -/

/-- The place behind the selected page, or the start of no pages. -/
inductive Project.PutsPages (p : Project) (c : Composition) : Nat → Prop
  | start : c.pages = [] → PutsPages p c 0
  | behind {before after : List Page} {page : Page} : p.selectedPage? = some page →
      p.FirstPage page.id c before page after → PutsPages p c (before.length + 1)

/-! ## What the pages are -/

/-- An element that differs from another one by its id at most. -/
def Element.Copies (copy e : Element) : Prop := copy = { e with id := copy.id }

/-- The `i`-th copy of a page: it differs by its id, its name and the ids of its elements. -/
structure Page.Copies (source : Page) (i : Nat) (copy : Page) : Prop where
  fields : copy = { source.withElements copy.elements with
    id := copy.id, name := .text (Pages.copyName source i) }
  elements : List.Forall₂ Element.Copies copy.elements source.elements

/-- A blank page with a number. -/
def Page.Blank (fps : Int) (number : Nat) (page : Page) : Prop :=
  page = {
    id := page.id, name := .text ("Page " ++ toString number), duration := defaultFrames fps }

/-- The pages that the options ask for. -/
inductive Pages.AskedFor (p : Project) (c : Composition) (args : Arguments) (new : List Page) : Prop
  | copies {id : String} {before after : List Page} {source : Page} :
      args.nonempty? "copy" = some id → p.FirstPage (.text id) c before source after →
      List.Forall₂ source.Copies (List.range (count args)) new → AskedFor p c args new
  | blanks : args.nonempty? "copy" = none →
      List.Forall₂ (Page.Blank p.fps) (List.range' (c.pages.length + 1) (count args)) new →
      AskedFor p c args new

/-- How the project `q` after `new` pages were added is made of the project `p` before it. -/
structure Pages.Adds (p : Project) (c : Composition) (new : List Page) (q : Project) : Prop where
  pages : ∃ k, p.PutsPages c k ∧ q.pages = c.pages.take k ++ new ++ c.pages.drop k
  rest : q = { p with
    composition := some { c with pages := q.pages }
    appState := { p.appState with
      selectedPageId := q.appState.selectedPageId, selectedElementId := .null } }
  pageIds : Fresh (c.pages.map (·.id)) (new.map (·.id))
  elementIds : Fresh c.elementIds (elementIds new)
  selected : ∃ first ∈ new.head?, q.selectedPage? = some first ∧
    q.appState.selectedPageId = first.id

/-! ## Drawing -/

namespace Pages

section Drawing
variable {source : IdSource} {n k : Nat}

theorem copyElements_copies {taken taken' : List Value} {es copies : List Element}
    (h : Yields (copyElements source taken es) n (copies, taken') k) :
    List.Forall₂ Element.Copies copies es := by
  induction es generalizing taken copies n k with
  | nil =>
      obtain ⟨heq, -⟩ := yields_pure.mp h
      cases heq
      exact .nil
  | cons e rest ih =>
      simp only [copyElements, yields_bind, Prod.exists, yields_pure, Prod.mk.injEq] at h
      obtain ⟨id, _, -, cs, _, _, hcs, ⟨rfl, rfl⟩, -⟩ := h
      exact .cons rfl (ih hcs)

theorem copies_copies {page : Page} {takenPages takenElements : List Value} {m i : Nat}
    {pages : List Page} (h : Yields (copies source page takenPages takenElements m i) n pages k) :
    List.Forall₂ page.Copies (List.range' i m) pages := by
  induction m generalizing takenPages takenElements i n k pages with
  | zero =>
      obtain ⟨rfl, -⟩ := yields_pure.mp h
      exact .nil
  | succ m ih =>
      simp only [copies, yields_bind, Prod.exists, yields_pure] at h
      obtain ⟨es, taken, _, hes, id, _, -, rest, _, hrest, rfl, -⟩ := h
      exact .cons ⟨rfl, copyElements_copies hes⟩ (ih hrest)

theorem blanks_blank {fps : Int} {taken : List Value} {m number : Nat} {pages : List Page}
    (h : Yields (blanks source fps taken m number) n pages k) :
    List.Forall₂ (Page.Blank fps) (List.range' number m) pages := by
  induction m generalizing taken number n k pages with
  | zero =>
      obtain ⟨rfl, -⟩ := yields_pure.mp h
      exact .nil
  | succ m ih =>
      simp only [blanks, blankPage, yields_bind, yields_pure] at h
      obtain ⟨page, _, ⟨id, _, -, rfl, -⟩, rest, _, hrest, rfl, -⟩ := h
      exact .cons rfl (ih hrest)

theorem draft_askedFor {p : Project} {c : Composition} {args : Arguments} {original : Option Page}
    {pages : List Page} (hc : p.composition = some c)
    (horiginal : copySource c args = .ok original)
    (h : Yields (draft source p c original (count args)) n pages k) : AskedFor p c args pages := by
  unfold copySource at horiginal
  split at horiginal
  · rename_i hnone
    cases horiginal
    exact .blanks hnone (blanks_blank h)
  · rename_i id hid
    split at horiginal
    · rename_i page hpage
      cases horiginal
      obtain ⟨before, after, hpages, hfirst⟩ := find?_hasId_eq_some.mp hpage
      obtain ⟨hnamed, hothers⟩ := firstWithId_text.mp hfirst
      have hcopies := copies_copies h
      rw [← List.range_eq_range'] at hcopies
      exact .copies hid ⟨hc, hpages, hnamed, hothers⟩ hcopies
    · cases horiginal

end Drawing

/-- The pages that the options ask for are as many as they say. -/
theorem AskedFor.length {p : Project} {c : Composition} {args : Arguments} {new : List Page}
    (h : AskedFor p c args new) : new.length = count args := by
  cases h with
  | copies _ _ h => simpa using h.length_eq.symm
  | blanks _ h => simpa using h.length_eq.symm

/-- One page is asked for, or up to twenty. -/
theorem count_created {tokens : List String} {fps : Number} {args : Arguments}
    (h : createGrammar.parse tokens fps = .ok args) : 1 ≤ count args ∧ count args ≤ 20 := by
  unfold count
  cases hnum : args.int? "num" with
  | none => exact ⟨le_rfl, by decide⟩
  | some n =>
      obtain ⟨hlow, hhigh⟩ : 1 ≤ n ∧ n ≤ Limits.maxNewPages := Grammar.between_of_int? rfl h hnum
      unfold Limits.maxNewPages at hhigh
      rw [Option.getD_some]
      omega

/-! ## Putting them in -/

variable {p : Project} {c : Composition}

theorem insertionPlace_puts (hids : ∀ id ∈ p.pageIds, id.IsText) (hc : p.composition = some c) :
    p.PutsPages c (insertionPlace p) := by
  unfold insertionPlace
  cases hselected : p.selectedPage? with
  | none =>
      refine .start ?_
      by_contra hne
      obtain ⟨page, hpage⟩ := Project.selectedPage?_isSome (Project.pages_eq hc ▸ hne)
      cases hselected.symm.trans hpage
  | some page =>
      obtain ⟨before, after, hpages, hfirst⟩ := Project.selectedPage?_split hids hc hselected
      obtain ⟨id, hid⟩ := hids page.id
        (List.mem_map_of_mem (Project.selectedPage?_mem hselected))
      have hplace : Collection.place? p.pages page.id = some before.length :=
        place?_eq_some.mpr ⟨before, page, after, (Project.pages_eq hc).trans hpages, rfl, hfirst⟩
      dsimp only
      rw [hplace]
      refine .behind hselected ⟨hc, hpages, rfl, fun b hb => ?_⟩
      rw [hid] at hfirst ⊢
      exact (firstWithId_text.mp hfirst).2 b hb

end Pages

theorem Project.PutsPages.le {p : Project} {c : Composition} {k : Nat} (h : p.PutsPages c k) :
    k ≤ c.pages.length := by
  cases h with
  | start => exact Nat.zero_le _
  | behind _ hfirst =>
      rw [hfirst.pages]
      simp

namespace Pages

variable {p : Project} {c : Composition}

/-- New pages under fresh ids, put in and with the first one selected. -/
theorem insert_adds {q : Project} {first : Page} {rest : List Page}
    (hids : ∀ id ∈ p.pageIds, id.IsText) (hc : p.composition = some c)
    (hpages : Fresh (c.pages.map (·.id)) ((first :: rest).map (·.id)))
    (helements : Fresh c.elementIds (elementIds (first :: rest)))
    (hq : Collection.pages.insert p (insertionPlace p) (first :: rest) = .ok q) :
    Adds p c (first :: rest) (withSelected q first.id) := by
  have hplace := insertionPlace_puts hids hc
  obtain ⟨xs, hxs, rfl⟩ := Collection.insert_eq_ok.mp hq
  obtain ⟨c', hc', rfl⟩ := Collection.items_pages.mp hxs
  cases hc.symm.trans hc'
  have hclamp : clampTo c.pages.length (insertionPlace p) = insertionPlace p := by
    have hle := hplace.le
    unfold clampTo
    omega
  rw [hclamp, Collection.replace_pages hc]
  refine ⟨⟨_, hplace, rfl⟩, rfl, hpages, helements, first, rfl, ?_, rfl⟩
  -- no page in front of the new ones has the id that was drawn for the first of them
  have htext : first.id.IsText := hpages.distinct.uncons.1
  refine Project.selectedPage?_of_find? (find?_hasId_eq_some.mpr
    ⟨c.pages.take (insertionPlace p), rest ++ c.pages.drop (insertionPlace p), ?_,
      (hasId_iff htext).mpr rfl, fun b hb => ?_⟩)
  · show c.pages.take _ ++ first :: rest ++ c.pages.drop _ = _
    rw [List.append_assoc, List.cons_append]
  · refine Bool.eq_false_iff.mpr fun hid => hpages.free _ List.mem_cons_self ?_
    exact List.mem_map.mpr ⟨b, List.mem_of_mem_take hb, (hasId_iff htext).mp hid⟩

end Pages

/-- A line that adds pages and succeeds leaves the project with as many new pages as asked for,
behind the selected page and under new ids; they are blank, or copies of the page that the line
names, with new ids for all elements; the first of them is selected, and no element. -/
theorem Session.answer_adds_pages {p : Project} (hids : ∀ id ∈ p.pageIds, id.IsText)
    (ids : IdSource) (collaborators : Collaborators) {line : String} {command : Command}
    {tokens : List String} (hcalls : Calls line command tokens) (hname : command.name = "new-page")
    (j : Journal) (hsuccess : (answer ids collaborators (some p) line j).success = true) :
    ∃ c args new q, (context ids collaborators (some p) tokens).Reads Pages.createGrammar p c args ∧
      (answer ids collaborators (some p) line j).revised = some q ∧
      (new.length = Pages.count args ∧ 1 ≤ new.length ∧ new.length ≤ 20) ∧
      Pages.AskedFor p c args new ∧ Pages.Adds p c new q := by
  rcases answer_cases ids collaborators (some p) line j with
    hrefuses | ⟨command', tokens', hcalls', -, heffect⟩
  · rw [hrefuses.success] at hsuccess
    cases hsuccess
  obtain ⟨rfl, rfl⟩ := hcalls.unique hcalls'
  generalize command.name = name at hname heffect
  cases heffect with
  | createPages hreads hsource hpages hq ho =>
      cases hreads.project
      obtain ⟨hpageIds, helementIds⟩ := Pages.draft_fresh hpages
      have hasked := Pages.draft_askedFor hreads.composition hsource hpages
      have hcount := Pages.count_created hreads.args
      exact ⟨_, _, _, _, hreads, ho.revised, ⟨hasked.length, by rwa [hasked.length]⟩, hasked,
        Pages.insert_adds hids hreads.composition hpageIds helementIds hq⟩
  | createElement hr =>
      have hother : "new-page" ∉ ["new-text", "new-image", "new-video"] := by decide
      exact absurd (hname ▸ Elements.command_mem hr) hother
  | _ => exact absurd hname (by decide)

/-- Two copies of a page with a text are added behind it. -/
theorem Session.two_copies_added :
    let o := answer .counting {} (some (.small "note")) "/new-page -n 2 --copy page" {}
    o.success = true ∧ ∃ c args new q, Project.composition (.small "note") = some c ∧
      o.revised = some q ∧ new.length = 2 ∧ Pages.AskedFor (.small "note") c args new ∧
      Pages.Adds (.small "note") c new q ∧
      q.pages.map (·.name.display) = ["Page", "Page Copy", "Page Copy 2"] := by
  intro o
  have hsuccess : o.success = true := by decide +kernel
  have hnames : o.revised.map (·.pages.map (·.name.display)) =
      some ["Page", "Page Copy", "Page Copy 2"] := by decide +kernel
  have hcalls : Calls "/new-page -n 2 --copy page" Builtin.pages[0] ["-n", "2", "--copy", "page"] :=
    ⟨"new-page", by decide +kernel, rfl⟩
  obtain ⟨c, args, new, q, hreads, hq, -, hasked, hadds⟩ :=
    answer_adds_pages (p := .small "note") (by decide) .counting {} hcalls rfl {} hsuccess
  have hargs : (context .counting {} (some (.small "note")) ["-n", "2", "--copy", "page"]).parse
      Pages.createGrammar = .ok [("num", .int 2), ("copy", .text "page")] := rfl
  obtain rfl := Except.ok.inj (hargs.symm.trans hreads.args)
  rw [hq, Option.map_some] at hnames
  exact ⟨hsuccess, c, _, new, q, hreads.composition, hq, hasked.length, hasked, hadds,
    Option.some.inj hnames⟩

end Montage
