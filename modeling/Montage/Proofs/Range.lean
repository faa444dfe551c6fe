/-
# The ranges of numbers

A project is in range when every number of it is one that the options would have
accepted: `Project.InRange`.  For the entities the ranges are rules on fields, one
table for each kind, and a number that an element may lack is in range when it is
absent.

No command line leaves the ranges.  What an option gives is in the range of the
field that it fills (the `_fits` lemmas hold the option tables against the ranges),
what a command fills in itself is in range (a default, or a number that was there
before), and the zoom level is the one of a percentage that was clamped.
-/
import Montage.Proofs.Bounds
import Montage.Proofs.Fields
import Montage.Proofs.Origin
import Montage.Proofs.Reach

namespace Montage

/-! ## The ranges -/

/-- The absent value, or one with a property. -/
def Value.Optional (P : Value → Prop) (v : Value) : Prop := v = .null ∨ P v

/-- The range of a field of an audio track. -/
def Audio.Range : Entity.Field Audio → Value → Prop
  | .volume => Value.Between (Converter.ratio 0 1) (Converter.ratio 1 1)
  | .toneFrequency => Value.Between (Converter.ratio 1 100) (Converter.ratio 2 1)
  | .playbackRate | .duration => Value.Above (.int 0)
  | .delay | .trimBefore | .trimAfter => Value.AtLeast (.int 0)
  | _ => fun _ => True

/-- The range of a field of an element. -/
def Element.Range : Entity.Field Element → Value → Prop
  | .opacity => Value.Optional (Value.Between (Converter.ratio 0 1) (Converter.ratio 1 1))
  | .delay => Value.Optional (Value.AtLeast (.int 0))
  | .duration | .fontSize => Value.Optional (Value.Above (.int 0))
  | _ => fun _ => True

/-- The range of a field of a note. -/
def Note.Range : Entity.Field Note → Value → Prop
  | .time => Value.AtLeast (.int 0)
  | _ => fun _ => True

/-- The range of a field of a page. -/
def Page.Range : Entity.Field Page → Value → Prop
  | .duration => Value.AtLeast (.int 0)
  | _ => fun _ => True

/-- Frame rate and canvas are in range. -/
structure Composition.InRange (c : Composition) : Prop where
  fps : 1 ≤ c.fps ∧ c.fps ≤ 120
  width : 1 ≤ c.width ∧ c.width ≤ 7680
  height : 1 ≤ c.height ∧ c.height ≤ 4320

/-- Every number of the project is in range. -/
structure Project.InRange (p : Project) : Prop where
  composition : ∀ c, p.composition = some c → c.InRange
  pages : ∀ page ∈ p.pages, Keeps Page.Range page
  elements : ∀ page ∈ p.pages, ∀ e ∈ page.elements, Keeps Element.Range e
  audios : ∀ c, p.composition = some c → ∀ a ∈ c.audios, Keeps Audio.Range a
  notes : ∀ note ∈ p.notes, Keeps Note.Range note
  currentTime : p.appState.currentTime.AtLeast (.int 0)
  zoomLevel : p.appState.zoomLevel.Between (Converter.ratio 1 10) (Converter.ratio 10 1)

/-- The frame rate of a project in range is positive. -/
theorem Project.InRange.fps_pos {p : Project} (h : p.InRange) : 0 < p.fps := by
  unfold fps
  split
  · decide
  · rename_i c hc
    have hfps := (h.composition c hc).fps
    split
    · decide
    · omega

/-! ## The option tables -/

section Converters
variable {raw : String} {fps : Number} {v : Value}

theorem Converter.duration_atLeast (h : duration raw fps = .ok v) : v.AtLeast (.int 0) := by
  obtain ⟨n, rfl, hn⟩ := duration_eq_ok h
  exact Value.atLeast_int hn

theorem Converter.positiveDuration_above (h : positiveDuration raw fps = .ok v) :
    v.Above (.int 0) := by
  obtain ⟨n, rfl, hn⟩ := positiveDuration_eq_ok h
  exact Value.above_int hn

theorem Converter.positiveWhole_above (h : positiveWhole raw fps = .ok v) : v.Above (.int 0) := by
  obtain ⟨n, rfl, hn⟩ := positiveWhole_eq_ok h
  exact Value.above_int hn

end Converters

namespace Tracks

theorem valueOptions_fit : ∀ o ∈ valueOptions, o.Fits Audio.Range := by
  simp only [valueOptions, List.forall_mem_cons]
  refine ⟨?volume, ?trimBefore, ?trimAfter, ?rate, ?frequency, ?delay, ?duration, nofun⟩
  case volume => exact .taking (f := .volume) rfl fun _ _ _ => Converter.between_ratio
  case trimBefore => exact .taking (f := .trimBefore) rfl fun _ _ _ => Converter.duration_atLeast
  case trimAfter => exact .taking (f := .trimAfter) rfl fun _ _ _ => Converter.duration_atLeast
  case rate => exact .taking (f := .playbackRate) rfl fun _ _ _ => Converter.positiveNumber_eq_ok
  case frequency => exact .taking (f := .toneFrequency) rfl fun _ _ _ => Converter.between_ratio
  case delay => exact .taking (f := .delay) rfl fun _ _ _ => Converter.duration_atLeast
  case duration => exact .taking (f := .duration) rfl fun _ _ _ => Converter.positiveDuration_above

theorem range_restricts : Restricts (valueOptions.map (·.name)) Audio.Range := by
  intro f hf v
  cases f <;> trivial

theorem createGrammar_fits : createGrammar.Fits Audio.Range :=
  .of_restricts range_restricts (show ∀ o ∈ valueOptions, _ from valueOptions_fit) rfl

theorem changeGrammar_fits : changeGrammar.Fits Audio.Range :=
  .of_restricts range_restricts (show ∀ o ∈ valueOptions, _ from valueOptions_fit) rfl

end Tracks

namespace Elements

theorem geometryOptions_fit : ∀ o ∈ geometryOptions, o.Fits Element.Range := by
  simp only [geometryOptions, List.forall_mem_cons]
  refine ⟨?left, ?top, ?width, ?height, ?opacity, ?rotation, nofun⟩
  case left => exact .taking (f := .left) rfl fun _ _ _ _ => trivial
  case top => exact .taking (f := .top) rfl fun _ _ _ _ => trivial
  case width => exact .taking (f := .width) rfl fun _ _ _ _ => trivial
  case height => exact .taking (f := .height) rfl fun _ _ _ _ => trivial
  case opacity => exact .taking (f := .opacity) rfl fun _ _ _ h => .inr (Converter.between_ratio h)
  case rotation => exact .taking (f := .rotation) rfl fun _ _ _ _ => trivial

theorem textOptions_fit : ∀ o ∈ textOptions, o.Fits Element.Range := by
  simp only [textOptions, List.forall_mem_cons]
  refine ⟨?text, ?fontSize, ?color, ?fontFamily, ?fontWeight, ?textAlign, nofun⟩
  case text => exact .taking (f := .text) rfl fun _ _ _ _ => trivial
  case fontSize =>
    exact .taking (f := .fontSize) rfl fun _ _ _ h => .inr (Converter.positiveWhole_above h)
  case color => exact .taking (f := .color) rfl fun _ _ _ _ => trivial
  case fontFamily => exact .taking (f := .fontFamily) rfl fun _ _ _ _ => trivial
  case fontWeight => exact .taking (f := .fontWeight) rfl fun _ _ _ _ => trivial
  case textAlign => exact .taking (f := .textAlign) rfl fun _ _ _ _ => trivial

theorem timingOptions_fit : ∀ o ∈ timingOptions, o.Fits Element.Range := by
  simp only [timingOptions, List.forall_mem_cons]
  refine ⟨?delay, ?duration, nofun⟩
  case delay => exact .taking (f := .delay) rfl fun _ _ _ h => .inr (Converter.duration_atLeast h)
  case duration =>
    exact .taking (f := .duration) rfl fun _ _ _ h => .inr (Converter.positiveDuration_above h)

theorem src_fits : CommandOption.src.Fits Element.Range :=
  .taking (f := .src) rfl fun _ _ _ _ => trivial

theorem grammar_fits {r : Recipe} (hr : r ∈ recipes) : r.grammar.Fits Element.Range := by
  have hmedia (command : String) : (mediaGrammar command).Fits Element.Range := {
    options := by
      simp only [mediaGrammar, List.forall_mem_append, List.forall_mem_cons]
      exact ⟨⟨⟨⟨src_fits, nofun⟩, geometryOptions_fit⟩, timingOptions_fit⟩, .other rfl, nofun⟩
    positional := rfl }
  simp only [recipes, List.mem_cons, List.not_mem_nil, or_false] at hr
  rcases hr with rfl | rfl | rfl
  · exact {
      options := by
        simp only [text, textGrammar, List.forall_mem_append, List.forall_mem_cons]
        exact ⟨⟨⟨textOptions_fit, geometryOptions_fit⟩, timingOptions_fit⟩, .other rfl, nofun⟩
      positional := rfl }
  · exact hmedia "new-image"
  · exact hmedia "new-video"

theorem changeGrammar_fits : changeGrammar.Fits Element.Range where
  options := by
    simp only [changeGrammar, List.forall_mem_append, List.forall_mem_cons]
    refine ⟨⟨⟨⟨⟨⟨?id, .other rfl, .other rfl, nofun⟩, geometryOptions_fit⟩, ?zIndex, nofun⟩,
      textOptions_fit⟩, src_fits, nofun⟩, timingOptions_fit⟩
    case id => exact .taking (f := .id) rfl fun _ _ _ _ => trivial
    case zIndex => exact .taking (f := .zIndex) rfl fun _ _ _ _ => trivial
  positional := rfl

end Elements

namespace Notes

theorem range_restricts : Restricts ["time"] Note.Range := by
  intro f hf v
  cases f <;> trivial

theorem timeOption_fits : ∀ o ∈ [timeOption], o.Fits Note.Range := by
  intro o ho
  obtain rfl := List.mem_singleton.mp ho
  exact .taking (f := .time) rfl fun _ _ _ => Converter.duration_atLeast

theorem createGrammar_fits : createGrammar.Fits Note.Range :=
  .of_restricts range_restricts timeOption_fits rfl

theorem changeGrammar_fits : changeGrammar.Fits Note.Range :=
  .of_restricts range_restricts timeOption_fits rfl

end Notes

namespace Pages

theorem range_restricts : Restricts ["duration"] Page.Range := by
  intro f hf v
  cases f <;> trivial

theorem changeGrammar_fits : changeGrammar.Fits Page.Range := by
  refine .of_restricts range_restricts (fun o ho => ?_) rfl
  obtain rfl := List.mem_singleton.mp ho
  exact .taking (f := .duration) rfl fun _ _ _ => Converter.duration_atLeast

end Pages

/-- A whole number that the only option for it gives is between the bounds of the option. -/
theorem Grammar.between_of_int? {g : Grammar} {tokens : List String} {fps : Number}
    {args : Arguments} {name long short hint : String} {low high n : Int}
    (hoption : g.options.filter (fun o => o.name == name) =
      [.taking name long short (Converter.wholeBetween (.int low) (.int high)) hint])
    (h : g.parse tokens fps = .ok args) (hn : args.int? name = some n) : low ≤ n ∧ n ≤ high := by
  unfold Arguments.int? at hn
  split at hn
  · rename_i hlookup
    cases hn
    rcases gives_of_parse hoption h hlookup with ⟨raw, fps, hconvert⟩ | ⟨s, hs⟩
    · obtain ⟨m, hm, hbounds⟩ := Converter.wholeBetween_eq_ok hconvert
      cases hm
      exact hbounds
    · cases hs
  · cases hn

namespace Settings
variable {tokens : List String} {fps : Number} {args : Arguments} {n : Int}

theorem fps_given (h : changeGrammar.parse tokens fps = .ok args)
    (hn : args.int? "fps" = some n) : 1 ≤ n ∧ n ≤ 120 :=
  Grammar.between_of_int? rfl h hn

theorem width_given (h : changeGrammar.parse tokens fps = .ok args)
    (hn : args.int? "width" = some n) : 1 ≤ n ∧ n ≤ 7680 :=
  Grammar.between_of_int? rfl h hn

theorem height_given (h : changeGrammar.parse tokens fps = .ok args)
    (hn : args.int? "height" = some n) : 1 ≤ n ∧ n ≤ 4320 :=
  Grammar.between_of_int? rfl h hn

end Settings

/-- At least one page is to be deleted. -/
theorem Pages.count_pos {tokens : List String} {fps : Number} {args : Arguments}
    (h : deleteGrammar.parse tokens fps = .ok args) : 0 < count args := by
  unfold count
  cases hnum : args.int? "num" with
  | none => exact Nat.one_pos
  | some n =>
      have hbounds := Grammar.between_of_int? rfl h hnum
      simp only [Option.getD_some]
      omega

/-! ## What commands fill in -/

theorem Tracks.blank_keeps {id src : String} {rate : Int} (hrate : 0 < rate) :
    Keeps Audio.Range (blank id src rate) := by
  intro f
  cases f with
  | volume => exact ⟨_, rfl, by decide +kernel, by decide +kernel⟩
  | toneFrequency => exact ⟨_, rfl, by decide +kernel, by decide +kernel⟩
  | playbackRate => exact ⟨_, rfl, by decide +kernel⟩
  | duration => exact Value.above_int (Int.mul_pos (by decide) hrate)
  | delay | trimBefore | trimAfter => exact Value.atLeast_int le_rfl
  | _ => trivial

namespace Elements

theorem defaultText_keeps : Keeps Element.Range defaultText := by
  intro f
  cases f with
  | fontSize => exact .inr (Value.above_int (by decide))
  | opacity | delay | duration => exact .inl rfl
  | _ => trivial

/-- Place and size have no range. -/
theorem placed_keeps {e f : Element} (h : Placed e f) (he : Keeps Element.Range e) :
    Keeps Element.Range f := by
  obtain ⟨_, _, _, _, -, rfl⟩ := h
  intro f
  have hf := he f
  cases f <;> exact hf

theorem plainMedium_keeps (kind : ElementKind) : Keeps Element.Range (plainMedium kind) := by
  intro f
  cases f with
  | opacity => exact .inr ⟨_, rfl, by decide +kernel, by decide +kernel⟩
  | delay =>
      by_cases hkind : kind = .video
      · exact .inr ⟨_, congrArg Value.number? (if_pos hkind), by decide⟩
      · exact .inl (if_neg hkind)
  | fontSize | duration => exact .inl rfl
  | _ => trivial

end Elements

/-! ## The parts of a project -/

section Parts
variable {ctx : Context} {p : Project} {name : String}

theorem Audio.Origin.inRange {a : Audio} (h : Audio.Origin ctx p name a) (hp : p.InRange) :
    Keeps Audio.Range a := by
  cases h with
  | kept hc ha => exact hp.audios _ hc a ha
  | created hreads _ hassign =>
      exact Changes.assign_fields Audio.lawful hassign
        ((Tracks.createGrammar_fits.arguments hreads.args).except _)
        (Tracks.blank_keeps hp.fps_pos)
  | changed hreads ha hmerge =>
      exact Changes.merge_fields Audio.lawful hmerge
        ((Tracks.changeGrammar_fits.arguments hreads.args).except _)
        (hp.audios _ hreads.composition _ ha)

theorem Element.Origin.inRange {e : Element} (h : Element.Origin ctx p name e) (hp : p.InRange) :
    Keeps Element.Range e := by
  -- no range speaks of the id
  have hid : ∀ (e : Element) (id : String), Keeps Element.Range e →
      Keeps Element.Range { e with id := .text id } := by
    intro e id he f
    have hf := he f
    cases f <;> exact hf
  cases h with
  | kept hpage he => exact hp.elements _ hpage e he
  | copied id hpage he => exact hid _ id (hp.elements _ hpage _ he)
  | @created r c args e id hr hreads hdraft =>
      have hsource : ∀ page ∈ c.pages, ∀ e ∈ page.elements, Keeps Element.Range e :=
        fun page hpage => hp.elements page (Project.pages_eq hreads.composition ▸ hpage)
      exact hid e id (Elements.draft_keeps hsource Elements.defaultText_keeps
        (fun _ hplaced => Elements.placed_keeps hplaced (Elements.plainMedium_keeps r.kind))
        (fun _ _ he hplaced => Elements.placed_keeps hplaced he)
        ((Elements.grammar_fits hr).arguments hreads.args) hdraft)
  | changed hreads _ _ hpage he _ hmerge =>
      exact Changes.merge_fields Element.lawful hmerge
        ((Elements.changeGrammar_fits.arguments hreads.args).except _)
        (hp.elements _ (Project.pages_eq hreads.composition ▸ hpage) _ he)

theorem Note.Origin.inRange {note : Note} (h : Note.Origin ctx p name note) (hp : p.InRange) :
    Keeps Note.Range note := by
  cases h with
  | kept hnote => exact hp.notes note hnote
  | @created c args text id hreads _ =>
      intro f
      cases f with
      | time =>
          cases htime : args.get? "time" with
          | some v =>
              exact Notes.createGrammar_fits.arguments hreads.args _ (Value.mem_of_lookup htime)
                Note.Field.time rfl
          | none => exact hp.currentTime
      | _ => trivial
  | changed hreads hnote hmerge =>
      have hkeeps := Changes.merge_fields Note.lawful hmerge
        ((Notes.changeGrammar_fits.arguments hreads.args).except _) (hp.notes _ hnote)
      intro f
      have hf := hkeeps f
      cases f with
      | updatedAt => trivial
      | _ => exact hf

theorem Page.Origin.inRange {page : Page} (h : Page.Origin ctx p name page) (hp : p.InRange) :
    Keeps Page.Range page := by
  -- the only range is the one of the duration
  have hduration : ∀ q : Page, q.duration.AtLeast (.int 0) → Keeps Page.Range q := by
    intro q hq f
    cases f with
    | duration => exact hq
    | _ => trivial
  cases h with
  | kept hpage => exact hp.pages page hpage
  | refilled _ hpage => exact hduration _ (hp.pages _ hpage .duration)
  | blank _ _ _ =>
      have hfps := hp.fps_pos
      exact hduration _ (Value.atLeast_int (Int.mul_nonneg (by decide) hfps.le))
  | copied _ _ hpage _ => exact hduration _ (hp.pages _ hpage .duration)
  | @changed c args old new newId diff hreads hpage _ hmerge =>
      have hid : Changes.Fit Page.Range (newId.map fun id => ("id", Value.text id)).toList := by
        cases newId with
        | none => exact nofun
        | some id =>
            intro d hd f hf
            obtain rfl := List.mem_singleton.mp hd
            cases hf
            trivial
      exact Changes.merge_fields Page.lawful hmerge
        (((Pages.changeGrammar_fits.arguments hreads.args).except _).append hid)
        (hp.pages _ (Project.pages_eq hreads.composition ▸ hpage))

theorem Composition.Origin.inRange {d : Composition} (h : Composition.Origin ctx p name d)
    (hp : p.InRange) : d.InRange := by
  cases h with
  | kept hc hfps hwidth hheight =>
      obtain ⟨hfps', hwidth', hheight'⟩ := hp.composition _ hc
      exact ⟨hfps ▸ hfps', hwidth ▸ hwidth', hheight ▸ hheight'⟩
  | @changed c _ args hreads hfps hwidth hheight =>
      obtain ⟨hfps', hwidth', hheight'⟩ := hp.composition c hreads.composition
      -- a number is the one that is given, or else the one before
      refine ⟨hfps ▸ ?_, hwidth ▸ ?_, hheight ▸ ?_⟩
      · cases hgiven : args.int? "fps" with
        | none => exact hfps'
        | some n => exact Settings.fps_given hreads.args hgiven
      · cases hgiven : args.int? "width" with
        | none => exact hwidth'
        | some n => exact Settings.width_given hreads.args hgiven
      · cases hgiven : args.int? "height" with
        | none => exact hheight'
        | some n => exact Settings.height_given hreads.args hgiven

theorem AppState.ZoomOrigin.inRange {v : Value} (h : AppState.ZoomOrigin ctx p name v)
    (hp : p.InRange) : v.Between (Converter.ratio 1 10) (Converter.ratio 10 1) := by
  cases h with
  | kept => exact hp.zoomLevel
  | changed _ hx => exact Settings.level_between (Settings.requirePercentage_ne_nan hx)

theorem Project.Origin.inRange {q : Project} (h : Project.Origin ctx p name q) (hp : p.InRange) :
    q.InRange where
  composition d hd := (h.composition d hd).inRange hp
  pages page hpage := (h.pages page hpage).inRange hp
  elements page hpage e he := (h.elements page hpage e he).inRange hp
  audios d hd a ha := (h.audios d hd a ha).inRange hp
  notes note hnote := (h.notes note hnote).inRange hp
  currentTime := h.currentTime ▸ hp.currentTime
  zoomLevel := h.zoom.inRange hp

end Parts

/-! ## All lines -/

/-- Every part of the project after a line was there before, or a command made it. -/
theorem Leads.origin {p q : Project} (h : Leads p q) : ∃ ctx name, Project.Origin ctx p name q := by
  rcases h.cases with rfl | ⟨ctx, name, o, hctx, heffect, rfl⟩
  · exact ⟨Session.context .counting {} (some q) [], "", .refl⟩
  · exact ⟨ctx, name, heffect.origin hctx⟩

theorem Leads.inRange {p q : Project} (h : Leads p q) (hp : p.InRange) : q.InRange := by
  obtain ⟨_, _, horigin⟩ := h.origin
  exact horigin.inRange hp

theorem Reaches.inRange {p q : Project} (h : Reaches p q) (hp : p.InRange) : q.InRange := by
  induction h with
  | refl => exact hp
  | tail _ hstep ih => exact hstep.inRange ih

theorem Project.small_inRange (noteId : String) : (Project.small noteId).InRange where
  composition := by
    rintro _ ⟨⟩
    exact ⟨by decide, by decide, by decide⟩
  pages page hpage f := by
    obtain rfl := List.mem_singleton.mp hpage
    cases f with
    | duration => exact Value.atLeast_int (by decide)
    | _ => trivial
  elements page hpage e he f := by
    obtain rfl := List.mem_singleton.mp hpage
    obtain rfl := List.mem_singleton.mp he
    have hf := Elements.defaultText_keeps f
    cases f <;> exact hf
  audios := by
    rintro _ ⟨⟩ a ha
    cases ha
  notes note hnote f := by
    obtain rfl := List.mem_singleton.mp hnote
    cases f with
    | time => exact Value.atLeast_int le_rfl
    | _ => trivial
  currentTime := Value.atLeast_int le_rfl
  zoomLevel := ⟨_, rfl, by decide +kernel, by decide +kernel⟩

namespace Session

/-- The range invariant: whatever the line and the collaborators, a project in range is followed by
a project in range. -/
theorem answer_inRange {p : Project} (hp : p.InRange) (ids : IdSource)
    (collaborators : Collaborators) (line : String) (j : Journal) :
    ∃ q, (answer ids collaborators (some p) line j).projectAfter (some p) = some q ∧
      q.InRange := by
  have hafter := Outcome.projectAfter_some (answer ids collaborators (some p) line j) p
  exact ⟨_, hafter, Leads.inRange ⟨ids, collaborators, line, j, hafter⟩ hp⟩

/-- An audio track that plays twice as fast is added, and the project stays in range. -/
theorem fast_track_inRange :
    let line := "/new-audio --src a.mp3 --playback-rate 2 --volume 0.5"
    (Project.small "note").InRange ∧
      ∃ q, (answer .counting {} (some (.small "note")) line {}).projectAfter
          (some (.small "note")) = some q ∧
        (q.composition.map (·.audios.length)) = some 1 ∧ q.InRange := by
  intro line
  obtain ⟨q, hq, hrange⟩ := answer_inRange (Project.small_inRange "note") .counting {} line {}
  have hlength : ((answer .counting {} (some (.small "note")) line {}).projectAfter
      (some (.small "note"))).bind (fun q => q.composition.map (·.audios.length)) = some 1 := by
    decide +kernel
  rw [hq] at hlength
  exact ⟨Project.small_inRange "note", q, hq, hlength, hrange⟩

end Session

end Montage
