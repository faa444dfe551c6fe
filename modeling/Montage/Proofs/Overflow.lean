/-
# Ways into infinity

All numbers in a project are finite, and lines keep them so, but for two ways out:

    given     a decimal number too long for a float, for an option without an upper bound
    stored    a new image or video in the middle of a canvas that, less its stored size,
              is beyond the range of floats

Some hundred digits are enough for the first (`Context.exceeds_of_long`).  Every other
option has bounds or takes an integer, and a frame rate or a zoom level is never given
as it is.  `Overflows` says when a command goes one of the two ways.  It is exact: as
long as no line does, the document is finite, and its file standard JSON; and a line
after which it is not does (`standard_iff_of_reaches`).
-/
import Montage.Proofs.Agree
import Montage.Proofs.Complete
import Montage.Proofs.Spelling
import Montage.Proofs.Standard
import Montage.Proofs.Writable

namespace Montage

open Value (Finite)

/-! ## Two ways -/

/-- The records of the file storage are finite. -/
def Collaborators.Finite (c : Collaborators) : Prop :=
  ∀ records later, c.files = some (.lists records later) → ∀ record ∈ records, record.Finite

/-- The grammars with options that have no upper bound. -/
def openEnded : List Grammar :=
  [Tracks.createGrammar, Tracks.changeGrammar, Elements.changeGrammar] ++
    Elements.recipes.map (·.grammar)

/-- The line gives an option a number beyond the range of floats. -/
def Context.Exceeds (ctx : Context) (g : Grammar) : Prop :=
  ∃ args, ctx.parse g = .ok args ∧
    ∃ name ∈ unbounded, ∃ x, args.get? name = some (.float x) ∧ x.isFinite = false

/-- The size of its stored file puts an element beyond the range of floats, and the line does not
say where else. -/
def Elements.Misplaced (c : Composition) (files : Option FileStorage) (args : Arguments)
    (e : Element) : Prop :=
  ∃ width height,
    storedSize files (((args.nonempty? "src").map Value.text).getD e.src) =
      .ok (some (width, height)) ∧
    (args.get? "left" = none ∧ RoomOverflows c.width width ∨
      args.get? "top" = none ∧ RoomOverflows c.height height)

/-- The command puts a number into the project that is beyond the range of floats. -/
inductive Overflows (ctx : Context) (p : Project) (name : String) : Prop
  | given {g : Grammar} : g ∈ openEnded → g.command = name → ctx.Exceeds g → Overflows ctx p name
  | stored {r : Elements.Recipe} {c : Composition} {args : Arguments} {e : Element} :
      r ∈ Elements.recipes → r.grammar.command = name → r.kind ≠ .text →
      ctx.Reads r.grammar p c args →
      Elements.start c r.kind args = .ok e →
      Elements.Misplaced c ctx.collaborators.files args e → Overflows ctx p name

/-- Enough digits are read as infinity, and not refused. -/
theorem Converter.decimal_of_long {c : Char} {r : List Char} (hc : c ≠ '0')
    (hdigits : ∀ d ∈ c :: r, Json.isDigit d = true) (hlong : 342 ≤ r.length) :
    decimal (String.ofList (c :: r)) = .ok (.infinite false) := by
  have hdecimal : ∀ d ∈ c :: r, Text.isDecimal d = true :=
    fun d hd => isDecimal_of_isDigit (hdigits d hd)
  have hwritten : Admits (Signed false (c :: r) []) (String.ofList (c :: r)) := by
    refine .inl ?_
    rw [String.toList_ofList]
    exact .bare (.whole (List.cons_ne_nil c r) hdecimal)
  have hvalue : decimalValue false (c :: r) [] = .infinite false := by
    have hlarge := pow_le_natOfDigits hc (hdigits c List.mem_cons_self) r
    rw [decimalValue, List.append_nil]
    exact Binary64.ofDecimal_of_long (by omega) hlarge false
  rw [decimal, float?_eq_some_iff.mpr ⟨_, _, _, hwritten, rfl⟩, hvalue]

/-- Whatever its text is, a new text with so many digits for its place exceeds the range of
floats. -/
theorem Context.exceeds_of_long {ctx : Context} {text : String} {c : Char} {r : List Char}
    (hc : c ≠ '0') (hdigits : ∀ d ∈ c :: r, Json.isDigit d = true) (hlong : 342 ≤ r.length)
    (hargs : ctx.args = ["--text", text, "--left", String.ofList (c :: r)]) :
    ctx.Exceeds Elements.text.grammar := by
  have hdecimal := Converter.decimal_of_long hc hdigits hlong
  generalize String.ofList (c :: r) = raw at hdecimal hargs
  have hnumber : Converter.number raw (.int ctx.fps) = .ok (.float (.infinite false)) := by
    rw [Converter.number, hdecimal]
    rfl
  have hscan : Elements.text.grammar.scan (.int ctx.fps) [] ctx.args =
      .ok [("text", .text text), ("left", .float (.infinite false))] := by
    rw [hargs, Grammar.scan_taking rfl rfl, Grammar.scan_taking rfl hnumber]
    rfl
  refine ⟨[("text", .text text), ("left", .float (.infinite false))], ?_, "left",
    by simp [unbounded], _, rfl, rfl⟩
  rw [Context.parse, Grammar.parse, hscan]
  rfl

/-- A number that an option has set is not finite. -/
def Project.Overflown (p : Project) : Prop :=
  ∃ c, p.composition = some c ∧
    ((∃ page ∈ c.pages, ∃ e ∈ page.elements, ∃ f ∈ Element.Field.keyed, ¬ (e.get f).Finite) ∨
      ∃ a ∈ c.audios, ∃ f ∈ Audio.Field.keyed, ¬ (a.get f).Finite)

variable {ctx : Context} {p q : Project} {c : Composition} {name : String} {g : Grammar}
  {args : Arguments}

theorem grammar_openEnded {r : Elements.Recipe} (hr : r ∈ Elements.recipes) :
    r.grammar ∈ openEnded :=
  List.mem_append_right _ (List.mem_map_of_mem hr)

/-- Commands tell the grammars apart. -/
theorem openEnded_unique {g' : Grammar} (hg : g ∈ openEnded) (hg' : g' ∈ openEnded)
    (h : g.command = g'.command) : g = g' :=
  List.inj_on_of_nodup_map (by decide) hg hg' h

/-! ## Lines that do not overflow -/

namespace Value

theorem Bounded.finite {v : Value} (h : v.Bounded) : v.Finite := by
  cases h with
  | bool b => exact .bool b
  | int n => exact .int n
  | float hx => exact .float hx
  | text s => exact .text s

end Value

/-- What a line gives is finite, unless it exceeds the range of floats. -/
theorem Context.finite_of_not_exceeds (hg : g.Offers) (hargs : ctx.parse g = .ok args)
    (hnot : ¬ ctx.Exceeds g) : ∀ f ∈ args, f.2.Finite := by
  intro f hf
  rcases hg.of_parse hargs f hf with hbounded | ⟨hname, hdefinite⟩
  · exact hbounded.finite
  have hget := Grammar.get?_of_mem hargs hf
  generalize f.2 = v at hdefinite hget ⊢
  cases hdefinite with
  | bool b => exact .bool b
  | int n => exact .int n
  | text s => exact .text s
  | @float x =>
      refine .float ?_
      by_contra hx
      exact hnot ⟨args, hargs, f.1, hname, x, hget, by simpa using hx⟩

/-- Without an option that has no upper bound a line cannot exceed the range of floats. -/
theorem Context.not_exceeds (h : ∀ name ∈ unbounded, name ∉ g.fields) : ¬ ctx.Exceeds g := by
  rintro ⟨args, hargs, name, hname, x, hget, -⟩
  exact h name hname (Grammar.mem_fields_of_parse hargs _ (Value.mem_of_lookup hget))

theorem setters_openEnded (hg : g ∈ setters) :
    g ∈ openEnded ∨ ∀ name ∈ unbounded, name ∉ g.fields := by
  simp only [setters, List.mem_cons, List.not_mem_nil, or_false] at hg
  rcases hg with rfl | rfl | rfl | rfl | rfl | rfl
  · exact .inl (by simp [openEnded])
  · exact .inl (by simp [openEnded])
  · exact .inl (by simp [openEnded])
  · exact .inr (by decide)
  · exact .inr (by decide)
  · exact .inr (by decide)

/-- What is not among the changes was not given. -/
theorem Arguments.get?_eq_none {excluded : List String} (hname : name ∉ excluded)
    (h : ∀ c ∈ args.except excluded, c.1 ≠ name) : args.get? name = none := by
  by_contra hsome
  obtain ⟨v, hv⟩ := Option.ne_none_iff_exists'.mp hsome
  exact h _ (mem_except hv hname) rfl

namespace Elements

variable {r : Recipe} {files : Option FileStorage} {d e : Element}

theorem finite_sizeIn {src : Value} {records : List Value} {width height : Value}
    (h : sizeIn src records = .ok (some (width, height)))
    (hrecords : ∀ record ∈ records, record.Finite) : width.Finite ∧ height.Finite := by
  induction records with
  | nil => cases h
  | cons record rest ih =>
      cases record with
      | object fields =>
          have hentries := Finite.hereditary.entries (hrecords _ List.mem_cons_self)
          unfold sizeIn at h
          split at h
          · unfold recordedSize? at h
            dsimp only at h
            split at h
            · cases h
              exact ⟨Document.each_entry Finite.hereditary "width" hentries,
                Document.each_entry Finite.hereditary "height" hentries⟩
            · cases h
          · exact ih h fun w hw => hrecords w (List.mem_cons_of_mem _ hw)
      | _ => cases h

theorem finite_storedSize {collaborators : Collaborators} (hfiles : collaborators.Finite)
    {src width height : Value}
    (h : storedSize collaborators.files src = .ok (some (width, height))) :
    width.Finite ∧ height.Finite := by
  unfold storedSize at h
  split at h
  · rename_i records later hlists
    split at h
    · exact finite_sizeIn h (hfiles records later hlists)
    · cases h
  · cases h
  · cases h

/-- A new element holds finite values, if it is not misplaced and given nothing else. -/
theorem draft_finite {collaborators : Collaborators} (hfiles : collaborators.Finite)
    (hsource : ∀ page ∈ c.pages, ∀ e ∈ page.elements, Keeps (fun _ => Value.Finite) e)
    (hargs : ∀ f ∈ args, f.2.Finite)
    (hplaced : r.kind ≠ .text → ∀ d, start c r.kind args = .ok d →
      ¬ Misplaced c collaborators.files args d)
    (h : draft r c collaborators.files args = .ok e) : Keeps (fun _ => Value.Finite) e := by
  obtain ⟨d, f, hd, hf, he⟩ := draft_steps h
  have hstart := start_each Finite.hereditary hsource hd
  intro k
  rcases Changes.assign_get Element.lawful he k with ⟨v, hv, hget⟩ | ⟨hget, hother⟩
  · rw [hget]
    exact hargs _ (Arguments.mem_of_mem_except hv)
  rw [hget]
  split at hf
  · exact hf ▸ hstart k
  rename_i hkind
  obtain ⟨size, hsize, hf⟩ := fitted_iff.mp hf
  cases size with
  | none =>
      cases hf
      exact hstart k
  | some size =>
      obtain ⟨width, height⟩ := size
      obtain ⟨left, top, hleft, htop, rfl⟩ := centered_iff.mp hf
      obtain ⟨hwidth, hheight⟩ := finite_storedSize hfiles hsize
      have hk := hstart k
      cases k with
      | left =>
          refine (finite_middle_iff hleft).mpr fun hroom => hplaced hkind d hd ?_
          have hnone := Arguments.get?_eq_none (by decide : "left" ∉ ["copy"]) hother
          exact ⟨width, height, hsize, .inl ⟨hnone, hroom⟩⟩
      | top =>
          refine (finite_middle_iff htop).mpr fun hroom => hplaced hkind d hd ?_
          have hnone := Arguments.get?_eq_none (by decide : "top" ∉ ["copy"]) hother
          exact ⟨width, height, hsize, .inr ⟨hnone, hroom⟩⟩
      | width => exact hwidth
      | height => exact hheight
      | _ => exact hk

end Elements

/-- What a command takes from its line and from the files is finite, unless it overflows. -/
theorem Overflows.gives (hp : p.Each Finite) (hfiles : ctx.collaborators.Finite)
    (hnot : ¬ Overflows ctx p name) : ctx.Gives p name Finite where
  arguments g hg hname c args hreads := by
    refine ctx.finite_of_not_exceeds (setters_offers g hg) hreads.args fun hexceeds => ?_
    rcases setters_openEnded hg with hopen | hnone
    · exact hnot (.given hopen hname hexceeds)
    · exact ctx.not_exceeds hnone hexceeds
  element r hr hname c args e hreads hdraft := by
    have hargs := ctx.finite_of_not_exceeds (Elements.grammar_offers hr) hreads.args
      fun hexceeds => hnot (.given (grammar_openEnded hr) hname hexceeds)
    refine Elements.draft_finite hfiles (fun page hpage => ?_) hargs
      (fun hkind d hd hmisplaced => hnot (.stored hr hname hkind hreads hd hmisplaced)) hdraft
    exact hp.elements page (Project.pages_eq hreads.composition ▸ hpage)

/-! ## Lines that overflow -/

theorem Number.same_infinite {a : Number} {x : Binary64}
    (ha : ∀ y, a = .float y → y.isFinite = true) (hx : x.isFinite = false) :
    a.same (.float x) = false := by
  cases x with
  | finite => cases hx
  | nan =>
      cases a with
      | int n => rfl
      | float y => cases y <;> rfl
  | infinite b =>
      cases a with
      | int n => cases b <;> rfl
      | float y =>
          have hy := ha y rfl
          cases y with
          | finite => cases b <;> rfl
          | _ => cases hy

theorem Value.same_infinite {v : Value} {x : Binary64} (h : v.Finite) (hx : x.isFinite = false) :
    v.same (.float x) = false := by
  cases h with
  | bool b => exact (same_of_number rfl rfl).trans (Number.same_infinite nofun hx)
  | int n => exact (same_of_number rfl rfl).trans (Number.same_infinite nofun hx)
  | float hy =>
      refine (same_of_number rfl rfl).trans (Number.same_infinite ?_ hx)
      rintro _ ⟨⟩
      exact hy
  | _ => rfl

theorem Value.not_finite {v : Value} {x : Binary64} (hv : v = .float x)
    (hx : x.isFinite = false) : ¬ v.Finite := by
  rw [hv, finite_float, hx]
  exact Bool.false_ne_true

/-- A field that an assignment is given holds what it is given. -/
theorem Changes.assign_given {α : Type} [Entity α] (hl : Entity.Lawful α) {x y : α}
    {f : Entity.Field α} {v : Value} {excluded : List String} (hargs : ctx.parse g = .ok args)
    (hv : args.get? (Entity.name f) = some v) (hname : Entity.name f ∉ excluded)
    (h : assign x (args.except excluded) = .ok y) : Entity.get y f = v := by
  rcases assign_get hl h f with ⟨w, hw, hget⟩ | ⟨-, hother⟩
  · rw [hget]
    exact Grammar.eq_of_mem_except hargs hv _ hw rfl
  · exact absurd rfl (hother _ (Arguments.mem_except hv hname))

/-- A field that an assignment is not given holds what it held. -/
theorem Changes.assign_kept {α : Type} [Entity α] (hl : Entity.Lawful α) {x y : α}
    {f : Entity.Field α} {excluded : List String} (hargs : ctx.parse g = .ok args)
    (hnone : args.get? (Entity.name f) = none) (h : assign x (args.except excluded) = .ok y) :
    Entity.get y f = Entity.get x f := by
  rcases assign_get hl h f with ⟨v, hv, -⟩ | ⟨hget, -⟩
  · have hsome := Grammar.get?_of_mem hargs (Arguments.mem_of_mem_except hv)
    cases hnone.symm.trans hsome
  · exact hget

namespace Project

theorem overflown_of_audio {xs ys : List Audio} {a : Audio} {f : Audio.Field}
    (hxs : Collection.audios.items p = .ok xs) (ha : a ∈ ys) (hf : f ∈ Audio.Field.keyed)
    (h : ¬ (a.get f).Finite) : (Collection.audios.replace p ys).Overflown := by
  obtain ⟨c, hc, -⟩ := Collection.items_audios.mp hxs
  rw [Collection.replace_audios hc]
  exact ⟨_, rfl, .inr ⟨a, ha, f, hf, h⟩⟩

theorem overflown_of_element {pageId : Value} {xs ys : List Element} {e : Element}
    {f : Element.Field} (hxs : (Collection.elements pageId).items p = .ok xs) (he : e ∈ ys)
    (hf : f ∈ Element.Field.keyed) (h : ¬ (e.get f).Finite) :
    ((Collection.elements pageId).replace p ys).Overflown := by
  obtain ⟨c, before, page, after, hc, hpages, hpage, -⟩ := Collection.items_elements.mp hxs
  rw [Collection.replace_elements hc hpages hpage]
  exact ⟨_, rfl, .inl ⟨page.withElements ys, List.mem_append_right _ List.mem_cons_self, e, he, f,
    hf, h⟩⟩

end Project

namespace Tracks

theorem eq_playbackRate (hname : name ∈ unbounded) (hfield : name ∈ changeGrammar.fields) :
    name = Audio.Field.playbackRate.name := by
  revert name
  decide

theorem create_overflown {src id : String} {a : Audio} (hargs : ctx.parse createGrammar = .ok args)
    (hassign : Changes.assign (blank id src p.fps) (args.except ["src"]) = .ok a)
    (hq : Collection.audios.append p a = .ok q) (h : ctx.Exceeds createGrammar) :
    q.Overflown := by
  obtain ⟨_, hargs', name, hname, x, hget, hx⟩ := h
  cases hargs.symm.trans hargs'
  have hfield := Grammar.mem_fields_of_parse hargs _ (Value.mem_of_lookup hget)
  obtain rfl := eq_playbackRate hname (List.mem_append_left _ (List.mem_append_right _ hfield))
  obtain ⟨xs, hxs, -, rfl⟩ := Collection.append_eq_ok.mp hq
  have hvalue : a.get .playbackRate = .float x :=
    Changes.assign_given Audio.lawful hargs hget (by decide) hassign
  exact Project.overflown_of_audio hxs (by simp) (by decide) (Value.not_finite hvalue hx)

theorem change_overflown {id : Value} {move : Option Move} {u : Update Audio}
    (hp : p.Each Finite) (hargs : ctx.parse changeGrammar = .ok args)
    (hu : Collection.audios.update p id (args.except ["id", "before", "after"]) (.int p.fps)
      frameFields move .relative = .ok u) (h : ctx.Exceeds changeGrammar) :
    u.changed = true ∧ ∃ q, u.revised = some q ∧ q.Overflown := by
  obtain ⟨_, hargs', name, hname, x, hget, hx⟩ := h
  cases hargs.symm.trans hargs'
  have hfield := Grammar.mem_fields_of_parse hargs _ (Value.mem_of_lookup hget)
  obtain rfl := eq_playbackRate hname hfield
  obtain ⟨before, a, after, hxs, ha, -⟩ := Collection.update_cases hu
  obtain ⟨c, hc, hitems⟩ := Collection.items_audios.mp hxs
  have hfinite : a.playbackRate.Finite :=
    hp.audios c hc a (by rw [hitems]; simp) Audio.Field.playbackRate
  obtain ⟨_, ys, -, hmem, hvalue, hchanged, hrevised⟩ :=
    Collection.update_sets (c := .audios) (f := Audio.Field.playbackRate) hu hxs ha
      (Arguments.mem_except hget (by decide)) (Grammar.eq_of_mem_except hargs hget)
      (Value.same_infinite hfinite hx)
  exact ⟨hchanged, _, hrevised,
    Project.overflown_of_audio hxs hmem (by decide) (Value.not_finite hvalue hx)⟩

end Tracks

namespace Elements

variable {r : Recipe} {files : Option FileStorage} {d e : Element}

/-- The options of elements without an upper bound fill fields that documents hold. -/
theorem exists_field (hname : name ∈ unbounded)
    (hfield : name ∈ createFields ∨ name ∈ changeGrammar.fields) :
    ∃ f ∈ Element.Field.keyed, f.name = name ∧
      name ∉ ["copy"] ∧ name ∉ ["target", "id", "before", "after"] := by
  revert name
  decide

theorem fields_of_recipe (hr : r ∈ recipes) : r.grammar.fields = createFields := by
  simp only [recipes, List.mem_cons, List.not_mem_nil, or_false] at hr
  rcases hr with rfl | rfl | rfl <;> rfl

theorem recipe_unique {r' : Recipe} (hr : r ∈ recipes) (hr' : r' ∈ recipes)
    (h : r.grammar.command = r'.grammar.command) : r = r' :=
  List.inj_on_of_nodup_map (f := fun r : Recipe => r.grammar.command) (by decide) hr hr' h

theorem draft_exceeds (hr : r ∈ recipes) (hargs : ctx.parse r.grammar = .ok args)
    (he : draft r c files args = .ok e) (h : ctx.Exceeds r.grammar) :
    ∃ f ∈ Element.Field.keyed, ¬ (e.get f).Finite := by
  obtain ⟨_, hargs', name, hname, x, hget, hx⟩ := h
  cases hargs.symm.trans hargs'
  have hfield := Grammar.mem_fields_of_parse hargs _ (Value.mem_of_lookup hget)
  rw [fields_of_recipe hr] at hfield
  obtain ⟨f, hf, rfl, hother, -⟩ := exists_field hname (.inl hfield)
  obtain ⟨_, _, -, -, he⟩ := draft_steps he
  have hvalue : e.get f = .float x := Changes.assign_given Element.lawful hargs hget hother he
  exact ⟨f, hf, Value.not_finite hvalue hx⟩

theorem draft_misplaced (hargs : ctx.parse r.grammar = .ok args) (hkind : r.kind ≠ .text)
    (hd : start c r.kind args = .ok d) (he : draft r c files args = .ok e)
    (h : Misplaced c files args d) : ∃ f ∈ Element.Field.keyed, ¬ (e.get f).Finite := by
  obtain ⟨width, height, hsize, h⟩ := h
  obtain ⟨_, f, hd', hf, he⟩ := draft_steps he
  cases hd.symm.trans hd'
  rw [if_neg hkind] at hf
  obtain ⟨_, hsize', hf⟩ := fitted_iff.mp hf
  cases hsize.symm.trans hsize'
  obtain ⟨left, top, hleft, htop, rfl⟩ := centered_iff.mp hf
  -- what the line does not give is in the middle
  have hkept (k : Element.Field) (hnone : args.get? k.name = none) :
      e.get k = ({ d with left, top, width, height } : Element).get k :=
    Changes.assign_kept Element.lawful hargs hnone he
  rcases h with ⟨hnone, hroom⟩ | ⟨hnone, hroom⟩
  · refine ⟨.left, by decide, ?_⟩
    rw [hkept .left hnone]
    exact fun hfinite => (finite_middle_iff hleft).mp hfinite hroom
  · refine ⟨.top, by decide, ?_⟩
    rw [hkept .top hnone]
    exact fun hfinite => (finite_middle_iff htop).mp hfinite hroom

theorem create_overflown {pageId : Value} {id : String}
    (hq : (Collection.elements pageId).append p { e with id := .text id } = .ok q)
    (h : ∃ f ∈ Element.Field.keyed, ¬ (e.get f).Finite) : q.Overflown := by
  obtain ⟨f, hf, hvalue⟩ := h
  obtain ⟨xs, hxs, -, rfl⟩ := Collection.append_eq_ok.mp hq
  have hsame : ({ e with id := .text id } : Element).get f = e.get f := by
    cases f with
    | id => exact absurd hf (by decide)
    | _ => rfl
  exact Project.overflown_of_element hxs (List.mem_append_right _ List.mem_cons_self) hf
    (hsame ▸ hvalue)

theorem change_overflown {aim pageId : Value} {move : Option Move} {u : Update Element}
    (hp : p.Each Finite) (hargs : ctx.parse changeGrammar = .ok args)
    (hu : (Collection.elements pageId).update p aim
      (args.except ["target", "id", "before", "after"]) (.int p.fps) frameFields move .absolute =
        .ok u) (h : ctx.Exceeds changeGrammar) :
    u.changed = true ∧ ∃ q, u.revised = some q ∧ q.Overflown := by
  obtain ⟨_, hargs', name, hname, x, hget, hx⟩ := h
  cases hargs.symm.trans hargs'
  have hfield := Grammar.mem_fields_of_parse hargs _ (Value.mem_of_lookup hget)
  obtain ⟨f, hf, rfl, -, hother⟩ := exists_field hname (.inr hfield)
  obtain ⟨before, e, after, hxs, he, -⟩ := Collection.update_cases hu
  obtain ⟨c, _, page, _, hc, hpages, -, hitems⟩ := Collection.items_elements.mp hxs
  have hfinite : (e.get f).Finite :=
    hp.elements page (by rw [Project.pages_eq hc, hpages]; simp) e (by rw [hitems]; simp) f
  have hholds : Entity.holds e (f : Entity.Field Element) (.float x) = false :=
    ((Document.tells_element (List.mem_cons_of_mem _ hf)).holds e _).trans
      (Value.same_infinite hfinite hx)
  obtain ⟨_, ys, -, hmem, hvalue, hchanged, hrevised⟩ :=
    Collection.update_sets (c := .elements pageId) (f := f) hu hxs he
      (Arguments.mem_except hget hother) (Grammar.eq_of_mem_except hargs hget) hholds
  exact ⟨hchanged, _, hrevised,
    Project.overflown_of_element hxs hmem hf (Value.not_finite hvalue hx)⟩

end Elements

theorem command_of_overflows (h : Overflows ctx p name) :
    name ∈ openEnded.map (·.command) := by
  cases h with
  | given hg hcommand _ => exact hcommand ▸ List.mem_map_of_mem hg
  | stored hr hcommand => exact hcommand ▸ List.mem_map_of_mem (grammar_openEnded hr)

/-- A command that overflows, and comes to an end, leaves a number that is not finite. -/
theorem Effect.overflown {o : Outcome} (h : Effect ctx name o) (hctx : ctx.project = some p)
    (hp : p.Each Finite) (hoverflows : Overflows ctx p name) : (o.revised.getD p).Overflown := by
  have hanswer {α : Type} {u : Update α} {revised : Option Project} :
      (u.changed = true ∧ ∃ q, revised = some q ∧ q.Overflown) →
      o.revised = (if u.changed then revised else none) → (o.revised.getD p).Overflown := by
    rintro ⟨hchanged, q, rfl, hq⟩ ho
    rw [ho, if_pos hchanged]
    exact hq
  have hname := command_of_overflows hoverflows
  cases h with
  | createTrack hreads _ _ ha hq ho =>
      cases hreads.project.symm.trans hctx
      rw [ho.revised]
      cases hoverflows with
      | given hg hcommand hexceeds =>
          have hopen : Tracks.createGrammar ∈ openEnded := by simp [openEnded]
          obtain rfl := openEnded_unique hg hopen hcommand
          exact Tracks.create_overflown hreads.args ha hq hexceeds
      | stored hr hcommand => exact absurd (hcommand ▸ Elements.command_mem hr) (by decide)
  | changeTrack hreads _ _ hu ho =>
      cases hreads.project.symm.trans hctx
      cases hoverflows with
      | given hg hcommand hexceeds =>
          have hopen : Tracks.changeGrammar ∈ openEnded := by simp [openEnded]
          obtain rfl := openEnded_unique hg hopen hcommand
          exact hanswer (Tracks.change_overflown hp hreads.args hu hexceeds) ho.revised
      | stored hr hcommand => exact absurd (hcommand ▸ Elements.command_mem hr) (by decide)
  | createElement hr hreads _ he _ hq ho =>
      cases hreads.project.symm.trans hctx
      rw [ho.revised]
      refine Elements.create_overflown hq ?_
      cases hoverflows with
      | given hg hcommand hexceeds =>
          obtain rfl := openEnded_unique hg (grammar_openEnded hr) hcommand
          exact Elements.draft_exceeds hr hreads.args he hexceeds
      | stored hr' hcommand hkind hreads' hd hmisplaced =>
          obtain rfl := Elements.recipe_unique hr' hr hcommand
          cases hreads.composition.symm.trans hreads'.composition
          cases hreads.args.symm.trans hreads'.args
          exact Elements.draft_misplaced hreads.args hkind hd he hmisplaced
  | changeElement hreads _ _ _ _ hu ho =>
      cases hreads.project.symm.trans hctx
      cases hoverflows with
      | given hg hcommand hexceeds =>
          have hopen : Elements.changeGrammar ∈ openEnded := by simp [openEnded]
          obtain rfl := openEnded_unique hg hopen hcommand
          exact hanswer (Elements.change_overflown hp hreads.args hu hexceeds) ho.revised
      | stored hr hcommand => exact absurd (hcommand ▸ Elements.command_mem hr) (by decide)
  | _ => exact absurd hname (by decide)

/-! ## Documents -/

namespace Document

variable {v : Value}

/-- A document with a number that an option has set, and that is not finite, is not finite. -/
theorem not_finite_of_overflown (h : q.Overflown) (hextra : q.KeepsExtra) :
    ¬ (ofProject q).Finite := by
  intro hfinite
  obtain ⟨c, hc, h⟩ := h
  obtain ⟨hpages, haudios⟩ := each_ofComposition Finite.hereditary hfinite hc
  rcases h with ⟨page, hpage, e, he, f, hf, hvalue⟩ | ⟨a, ha, f, hf, hvalue⟩
  · have helements : (Value.list (page.elements.map ofElement)).Finite :=
      Finite.hereditary.entries (hpages page hpage) ("elements", _)
        (List.mem_append_right _ List.mem_cons_self)
    have helement := List.forall_mem_map.mp (Finite.hereditary.list.mp helements) e he
    have hkeeps := hextra.elements page (Project.pages_eq hc ▸ hpage) e he
    exact hvalue (get_each_of_ofElement Finite.hereditary helement hkeeps f hf)
  · exact hvalue (get_each_of_ofAudio Finite.hereditary (haudios a ha) f hf)

/-- The text in which a project is saved is standard JSON exactly if its document is finite. -/
theorem standard_fileText_iff {s : String} (h : fileText p = .ok s) :
    Json.Standard s ↔ (ofProject p).Finite := by
  obtain ⟨t, ht, h⟩ := bind_eq_ok.mp h
  cases h
  unfold Json.write at ht
  split at ht
  · cases ht
  · rename_i hbytes
    cases ht
    exact Json.standard_print_iff (by simpa using hbytes)

end Document

/-! ## Sessions -/

/-- Every number in the project is finite, and its document can be taken apart again. -/
structure Project.Numeric (p : Project) : Prop where
  finite : p.Each Finite
  extra : p.KeepsExtra

theorem Project.Numeric.document (hp : p.Numeric) : (Document.ofProject p).Finite :=
  Document.ofProject_each Finite.hereditary hp.finite hp.extra

namespace Session

variable {ids : IdSource} {collaborators : Collaborators} {line : String} {j : Journal}

/-- The line succeeds in putting a number into the project that is beyond the range of floats. -/
def Overflows (ids : IdSource) (collaborators : Collaborators) (p : Project) (line : String)
    (j : Journal) : Prop :=
  (answer ids collaborators (some p) line j).success = true ∧
    ∃ command args, Calls line command args ∧
      Montage.Overflows (context ids collaborators (some p) args) p command.name

/-- A line that does not overflow leaves finite numbers only. -/
theorem answer_numeric (hp : p.Numeric) (hfiles : collaborators.Finite)
    (hnot : ¬ Overflows ids collaborators p line j) :
    ((answer ids collaborators (some p) line j).revised.getD p).Numeric := by
  rcases answer_cases ids collaborators (some p) line j with
    hrefuses | ⟨command, args, hcalls, -, heffect⟩
  · rw [hrefuses.revised, Option.getD_none]
    exact hp
  · have horigin := heffect.origin (p := p) rfl
    refine ⟨horigin.each Finite.hereditary hp.finite ?_, horigin.keepsExtra hp.extra⟩
    refine Overflows.gives hp.finite hfiles fun hoverflows => hnot ?_
    exact ⟨heffect.success, command, args, hcalls, hoverflows⟩

/-- A line that overflows leaves a document that is not finite. -/
theorem answer_not_finite (hp : p.Numeric) (h : Overflows ids collaborators p line j) :
    ¬ (Document.ofProject
      ((answer ids collaborators (some p) line j).revised.getD p)).Finite := by
  obtain ⟨hsuccess, command, args, hcalls, hoverflows⟩ := h
  have heffect := effect_of_success hcalls hsuccess
  exact Document.not_finite_of_overflown (heffect.overflown rfl hp.finite hoverflows)
    ((heffect.origin (p := p) rfl).keepsExtra hp.extra)

/-- A line that does not overflow leads from `p` to `q`, with finite records of files. -/
def LeadsWithin (p q : Project) : Prop :=
  ∃ ids collaborators line j, collaborators.Finite ∧ ¬ Overflows ids collaborators p line j ∧
    (answer ids collaborators (some p) line j).projectAfter (some p) = some q

/-- Some such lines, one after the other. -/
def ReachesWithin : Project → Project → Prop := Relation.ReflTransGen LeadsWithin

theorem ReachesWithin.reaches (h : ReachesWithin p q) : Reaches p q := by
  induction h with
  | refl => exact .refl
  | tail _ hleads ih =>
      obtain ⟨ids, collaborators, line, j, -, -, hafter⟩ := hleads
      exact ih.tail ⟨ids, collaborators, line, j, hafter⟩

theorem ReachesWithin.numeric (h : ReachesWithin p q) (hp : p.Numeric) : q.Numeric := by
  induction h with
  | refl => exact hp
  | tail _ hleads ih =>
      obtain ⟨ids, collaborators, line, j, hfiles, hnot, hafter⟩ := hleads
      rw [Outcome.projectAfter_some, Option.some.injEq] at hafter
      exact hafter ▸ answer_numeric ih hfiles hnot

end Session

namespace Document

open Session (ReachesWithin answer)

variable {v : Value}

theorem numeric_of_project (hfinite : v.Finite) (hkeyed : v.Keyed) (h : project v = .ok p) :
    p.Numeric where
  finite := project_each Finite.hereditary h hfinite
  extra := (project_storable h hkeyed).keepsExtra

/-- As long as no line overflows, the document is finite and the text in which the project is saved
is standard JSON; after one more line they are, exactly if it does not overflow. -/
theorem standard_iff_of_reaches (hfinite : v.Finite) (hkeyed : v.Keyed) (hread : project v = .ok p)
    (hq : ReachesWithin p q) (ids : IdSource) {collaborators : Collaborators}
    (hfiles : collaborators.Finite) (line : String) (j : Journal) :
    (ofProject q).Finite ∧ (∀ s, fileText q = .ok s → Json.Standard s) ∧
      ∃ r, (answer ids collaborators (some q) line j).projectAfter (some q) = some r ∧
        ((ofProject r).Finite ↔ ¬ Session.Overflows ids collaborators q line j) ∧
        (∀ s, fileText r = .ok s →
          (Json.Standard s ↔ ¬ Session.Overflows ids collaborators q line j)) ∧
        (v.Plain → ∃ s, fileText r = .ok s) := by
  have hnumeric := hq.numeric (numeric_of_project hfinite hkeyed hread)
  have hafter := Outcome.projectAfter_some (answer ids collaborators (some q) line j) q
  refine ⟨hnumeric.document, fun s hs => (standard_fileText_iff hs).mpr hnumeric.document, _,
    hafter, ?_⟩
  have hiff : (ofProject ((answer ids collaborators (some q) line j).revised.getD q)).Finite ↔
      ¬ Session.Overflows ids collaborators q line j := by
    constructor
    · exact fun h hoverflows => Session.answer_not_finite hnumeric hoverflows h
    · exact fun hnot => (Session.answer_numeric hnumeric hfiles hnot).document
  refine ⟨hiff, fun s hs => ?_, fun hplain => ?_⟩
  · rw [standard_fileText_iff hs, hiff]
  · have hp : p.Writable := ⟨project_plain hread hplain, (project_storable hread hkeyed).keepsExtra⟩
    have hr : Reaches p _ := hq.reaches.tail ⟨ids, collaborators, line, j, hafter⟩
    exact ⟨_, fileText_eq (hr.writable hp)⟩

/-- A document with a text on a page, of a composition of some width. -/
def withText (width : Int) : Value :=
  .object [("composition", .object [("width", .int width), ("pages", .list [
    .object [("id", .text "page"), ("elements", .list [
      .object [("id", .text "text"), ("type", .text "text")]])]])])]

/-- What it is read as. -/
def openedText (width : Int) : Project := {
  id := ""
  name := .text "Untitled Project"
  composition := some {
    width
    pages := [{
      id := .text "page", name := .text "", duration := .int 0, backgroundColor := .null
      elements := [{ id := .text "text", kind := .text }] }] } }

theorem withText_plain (width : Int) : (withText width).Plain := by
  have htext : (Value.object [("id", .text "text"), ("type", .text "text")]).Plain := by
    refine .object (by decide) ?_
    simp only [List.forall_mem_cons]
    exact ⟨.text _, .text _, List.forall_mem_nil _⟩
  have hpage : (Value.object [("id", .text "page"), ("elements", .list [
      .object [("id", .text "text"), ("type", .text "text")]])]).Plain := by
    refine .object (by decide) ?_
    simp only [List.forall_mem_cons]
    exact ⟨.text _, .list (by simpa using htext), List.forall_mem_nil _⟩
  have hcomposition : (Value.object [("width", .int width), ("pages", .list [
      .object [("id", .text "page"), ("elements", .list [
        .object [("id", .text "text"), ("type", .text "text")]])]])]).Plain := by
    refine .object (show ["width", "pages"].Nodup by decide) ?_
    simp only [List.forall_mem_cons]
    exact ⟨.int _, .list (by simpa using hpage), List.forall_mem_nil _⟩
  exact .object (List.nodup_singleton _) (by simpa using hcomposition)

/-- A text is moved to a place between two pixels. -/
theorem moved_text_is_standard :
    project (withText 640) = .ok (openedText 640) ∧ ∃ q s, Leads (openedText 640) q ∧
      (q.pages.flatMap (·.elements)).map (·.left.display) = ["12.5"] ∧ fileText q = .ok s ∧
        Json.Standard s := by
  have hread : project (withText 640) = .ok (openedText 640) := rfl
  have hfiles : ({} : Collaborators).Finite := nofun
  obtain ⟨-, -, q, hafter, hfinite, hstandard, htext⟩ :=
    standard_iff_of_reaches (by decide) (withText_plain 640).keyed hread .refl .counting hfiles
      "/set-element --id text --left 12.5" {}
  obtain ⟨s, hs⟩ := htext (withText_plain 640)
  have hleads : Leads (openedText 640) q := ⟨_, _, _, _, hafter⟩
  rw [Outcome.projectAfter_some, Option.some.injEq] at hafter
  have hnumbers : (ofProject q).Finite := by
    rw [← hafter]
    decide +kernel
  refine ⟨hread, q, s, hleads, ?_, hs, (hstandard s hs).mpr (hfinite.mp hnumbers)⟩
  rw [← hafter]
  decide +kernel

/-- An image that is as wide as a float can be is put in the middle of a composition that is as wide
in the other direction. -/
theorem wide_image_is_not_standard :
    let width : Int := -10 ^ 308
    let record : Value := .object [
      ("name", .text "wide"), ("width", .float (Binary64.ofDecimal false 17 307)),
      ("height", .int 1)]
    (withText width).Finite ∧ record.Finite ∧
      project (withText width) = .ok (openedText width) ∧ ∃ q s,
        (answer .counting { files := some (.lists [record] false) } (some (openedText width))
          "/new-image --src wide" {}).projectAfter (some (openedText width)) = some q ∧
        ¬ (ofProject q).Finite ∧ fileText q = .ok s ∧ ¬ Json.Standard s := by
  intro width record
  have hread : project (withText width) = .ok (openedText width) := rfl
  let o := answer .counting { files := some (.lists [record] false) } (some (openedText width))
    "/new-image --src wide" {}
  have hafter : o.projectAfter (some (openedText width)) = _ := o.projectAfter_some _
  have hwritable : (openedText width).Writable :=
    ⟨project_plain hread (withText_plain width),
      (project_storable hread (withText_plain width).keyed).keepsExtra⟩
  have htext := fileText_eq (Reaches.writable (.single ⟨_, _, _, _, hafter⟩) hwritable)
  have hnumbers : ¬ (ofProject (o.revised.getD (openedText width))).Finite := by decide +kernel
  exact ⟨by decide +kernel, by decide +kernel, hread, _, _, hafter, hnumbers, htext,
    fun h => hnumbers ((standard_fileText_iff htext).mp h)⟩

end Document

end Montage
