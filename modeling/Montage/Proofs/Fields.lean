/-
# Fields, and the values that options give them

A rule about a kind of entity says which values a field may hold: `R f v`.  An
entity keeps to it field by field, `Keeps R e`.  Setting a field by name touches
this field alone, so a list of changes of which each fits its field leads from an
entity that keeps to the rule to another one, be it assigned (`assign_fields`) or
merged (`merge_fields`).

What a command line gives is bounded by the grammar: every argument is a value that
an option's converter answered, a raised switch, or the bare token (`given_of_parse`).
To see that all lines respect a rule it is enough to go through the option table
once and compare each converter with its field (`CommandOption.Fits`).
-/
import Montage.Edit.Collection
import Montage.Proofs.Ids
import Montage.Proofs.Merge
import Montage.Proofs.Options

namespace Montage

/-! ## Getting what was set -/

/-- The names tell the fields apart, and setting a field gives it the value and leaves the others
alone. -/
structure Entity.Lawful (α : Type) [Entity α] : Prop where
  field?_name : ∀ f : Entity.Field α, Entity.field? (Entity.name f) = some f
  get_set : ∀ (e : α) (f : Entity.Field α) (v : Value) (e' : α), Entity.set e f v = .ok e' →
    Entity.get e' f = v ∧ ∀ g, g ≠ f → Entity.get e' g = Entity.get e g

theorem Audio.lawful : Entity.Lawful Audio where
  field?_name f := by cases f <;> rfl
  get_set e f v e' h := by
    cases f <;> cases h <;> refine ⟨rfl, fun g hg => ?_⟩ <;> cases g <;>
      first | rfl | exact absurd rfl hg

theorem Note.lawful : Entity.Lawful Note where
  field?_name f := by cases f <;> rfl
  get_set e f v e' h := by
    cases f <;> cases h <;> refine ⟨rfl, fun g hg => ?_⟩ <;> cases g <;>
      first | rfl | exact absurd rfl hg

theorem Page.lawful : Entity.Lawful Page where
  field?_name f := by cases f <;> rfl
  get_set e f v e' h := by
    cases f with
    | elements =>
        rw [Page.set_elements h]
        refine ⟨rfl, fun g hg => ?_⟩
        cases g <;> first | rfl | exact absurd rfl hg
    | _ =>
        cases h
        refine ⟨rfl, fun g hg => ?_⟩
        cases g <;> first | rfl | exact absurd rfl hg

/-- An alignment that a value stands for is written as this value. -/
theorem Element.alignValue_alignOf {v : Value} {a : Option TextAlign} (h : alignOf v = .ok a) :
    alignValue a = v := by
  unfold alignOf at h
  split at h
  · cases h
    rfl
  · split at h
    · rename_i b hb
      cases h
      cases v with
      | text s =>
          have hname := List.find?_some (show TextAlign.all.find? (·.name == s) = some b from hb)
          rw [beq_iff_eq] at hname
          rw [alignValue, hname]
      | _ => cases hb
    · cases h

/-- Entries beside the known ones show as the value that gave them. -/
theorem Extra.value_ofValue {v : Value} {x : Extra} (h : Extra.ofValue v = .ok x) :
    x.value = v := by
  unfold Extra.ofValue at h
  split at h
  · cases h
    rfl
  · obtain ⟨_, -, h⟩ := bind_eq_ok.mp h
    obtain ⟨_, -, h⟩ := bind_eq_ok.mp h
    cases h
    rfl

theorem Element.lawful : Entity.Lawful Element where
  field?_name f := by cases f <;> rfl
  get_set e f v e' h := by
    cases f with
    | kind => cases h
    | textAlign =>
        obtain ⟨a, ha, h⟩ := bind_eq_ok.mp h
        cases h
        refine ⟨Element.alignValue_alignOf ha, fun g hg => ?_⟩
        cases g <;> first | rfl | exact absurd rfl hg
    | extra =>
        obtain ⟨x, hx, h⟩ := bind_eq_ok.mp h
        cases h
        refine ⟨Extra.value_ofValue hx, fun g hg => ?_⟩
        cases g <;> first | rfl | exact absurd rfl hg
    | _ =>
        cases h
        refine ⟨rfl, fun g hg => ?_⟩
        cases g <;> first | rfl | exact absurd rfl hg

theorem Collection.lawful : (c : Collection) → Entity.Lawful c.Item
  | pages => Page.lawful
  | audios => Audio.lawful
  | notes => Note.lawful
  | elements _ => Element.lawful

/-! ## Rules for fields -/

section Rules
variable {α : Type} [Entity α] {R : Entity.Field α → Value → Prop} {x y : α}

/-- Every field of the entity holds a value that the rule allows. -/
def Keeps (R : Entity.Field α → Value → Prop) (e : α) : Prop := ∀ f, R f (Entity.get e f)

/-- Every change is of a field that may hold the new value. -/
def Changes.Fit (R : Entity.Field α → Value → Prop) (changes : Changes) : Prop :=
  ∀ c ∈ changes, ∀ f, Entity.field? c.1 = some f → R f c.2

namespace Changes

theorem set_fields (hl : Entity.Lawful α) {f : Entity.Field α} {v : Value}
    (h : Entity.set x f v = .ok y) (hv : R f v) (hx : Keeps R x) : Keeps R y := by
  obtain ⟨hsame, hother⟩ := hl.get_set x f v y h
  intro g
  by_cases hg : g = f
  · subst hg
    rwa [hsame]
  · rw [hother g hg]
    exact hx g

theorem assign_fields (hl : Entity.Lawful α) {changes : Changes}
    (h : assign x changes = .ok y) (hfit : Fit R changes) (hx : Keeps R x) : Keeps R y := by
  induction changes generalizing x with
  | nil =>
      cases h
      exact hx
  | cons c cs ih =>
      unfold assign at h
      rw [List.foldlM_cons] at h
      obtain ⟨z, hz, h⟩ := bind_eq_ok.mp h
      refine ih h (fun d hd => hfit d (List.mem_cons_of_mem _ hd)) ?_
      split at hz
      · cases hz
      · rename_i f hf
        exact set_fields hl hz (hfit c List.mem_cons_self f hf) hx

/-- After an assignment a field holds a value that was given for it, or what it held before, if none
was. -/
theorem assign_get (hl : Entity.Lawful α) {changes : Changes} (h : assign x changes = .ok y)
    (f : Entity.Field α) :
    (∃ v, (Entity.name f, v) ∈ changes ∧ Entity.get y f = v) ∨
      (Entity.get y f = Entity.get x f ∧ ∀ c ∈ changes, c.1 ≠ Entity.name f) := by
  induction changes generalizing x with
  | nil =>
      cases h
      exact .inr ⟨rfl, nofun⟩
  | cons c cs ih =>
      unfold assign at h
      rw [List.foldlM_cons] at h
      obtain ⟨z, hz, h⟩ := bind_eq_ok.mp h
      rcases ih h with ⟨v, hv, hget⟩ | ⟨hget, hother⟩
      · exact .inl ⟨v, List.mem_cons_of_mem c hv, hget⟩
      split at hz
      · cases hz
      · rename_i g hg
        have hname := Entity.name_of_field? hg
        obtain ⟨hsame, hrest⟩ := hl.get_set x g c.2 z hz
        by_cases hgf : f = g
        · subst hgf
          rw [hname, hget, hsame]
          exact .inl ⟨c.2, List.mem_cons_self, rfl⟩
        · refine .inr ⟨hget.trans (hrest f hgf), fun d hd hd' => ?_⟩
          rcases List.mem_cons.mp hd with rfl | hd
          · rw [hd', hl.field?_name f] at hg
            exact hgf (Option.some.inj hg)
          · exact hother d hd hd'

theorem merge_fields (hl : Entity.Lawful α) {changes : Changes} {fps : Number}
    {frameFields diff : List String} (h : merge x fps frameFields changes = .ok (y, diff))
    (hfit : Fit R changes) (hx : Keeps R x) : Keeps R y := by
  obtain ⟨es, hes, -, hy, -⟩ := merge_eq_ok.mp h
  clear h
  generalize Entity.fields (α := α) = fs at hy
  have hedit : ∀ d ∈ es, ∀ f, Entity.name f = d.name → R f d.value := by
    intro d hd f hf
    exact hfit _ (mem_of_mem_edits hes hd) f (hf ▸ hl.field?_name f)
  clear hes
  induction fs generalizing x with
  | nil =>
      cases hy
      exact hx
  | cons f fs ih =>
      rw [List.foldlM_cons] at hy
      obtain ⟨z, hz, hy⟩ := bind_eq_ok.mp hy
      refine ih ?_ hy
      unfold setField at hz
      split at hz
      · rename_i d hd
        have hname : d.name = Entity.name f := by simpa using List.find?_some hd
        exact set_fields hl hz (hedit d (List.mem_of_find?_eq_some hd) f hname.symm) hx
      · cases hz
        exact hx

/-- What setting a field brings about and setting another one keeps is so in the end, if an edit is
of the field. -/
theorem setFields_brings {P : α → Prop} {es : List Edit} {f : Entity.Field α} {b : Edit}
    (hset : ∀ {e e' : α}, Entity.set e f b.value = .ok e' → P e')
    (hkeep : ∀ {e : α} {g : Entity.Field α} {w : Value} {e' : α}, Entity.set e g w = .ok e' →
      g ≠ f → P e → P e')
    (hb : es.find? (·.name == Entity.name f) = some b) {fs : List (Entity.Field α)}
    (h : fs.foldlM (setField es) x = .ok y) (hf : f ∈ fs ∨ P x) : P y := by
  induction fs generalizing x with
  | nil =>
      cases h
      exact hf.resolve_left List.not_mem_nil
  | cons g fs ih =>
      rw [List.foldlM_cons] at h
      obtain ⟨z, hz, h⟩ := bind_eq_ok.mp h
      by_cases hgf : g = f
      · subst hgf
        rw [setField_of_find? hb] at hz
        exact ih h (.inr (hset hz))
      · refine ih h (hf.imp (fun hf => (List.mem_cons.mp hf).resolve_left (Ne.symm hgf)) fun hx => ?_)
        unfold setField at hz
        split at hz
        · exact hkeep hz hgf hx
        · cases hz
          exact hx

/-- A field that one of the edits names holds the new value, once it was set. -/
theorem setFields_get (hl : Entity.Lawful α) {es : List Edit} {f : Entity.Field α} {d : Edit}
    (hd : es.find? (·.name == Entity.name f) = some d) {fs : List (Entity.Field α)}
    (h : fs.foldlM (setField es) x = .ok y) (hf : f ∈ fs ∨ Entity.get x f = d.value) :
    Entity.get y f = d.value := by
  refine setFields_brings (P := fun e => Entity.get e f = d.value) (fun hz => ?_)
    (fun hz hne he => ?_) hd h hf
  · exact (hl.get_set _ f d.value _ hz).1
  · exact ((hl.get_set _ _ _ _ hz).2 f hne.symm).trans he

/-- A change that differs from the value of its field is what the field holds after a merge, and
is reported. -/
theorem merge_get (hl : Entity.Lawful α) {changes : Changes} {fps : Number}
    {frameFields diff : List String} {f : Entity.Field α} {v : Value}
    (h : merge x fps frameFields changes = .ok (y, diff)) (hv : (Entity.name f, v) ∈ changes)
    (honly : ∀ c ∈ changes, c.1 = Entity.name f → c.2 = v) (hne : Entity.holds x f v = false) :
    Entity.get y f = v ∧ diff ≠ [] := by
  obtain ⟨es, hes, -, hy, rfl⟩ := merge_eq_ok.mp h
  obtain ⟨d, hd, hname, -⟩ := exists_edit_of_ne hes hv (hl.field?_name f) hne
  constructor
  · have hsome : (es.find? (·.name == Entity.name f)).isSome = true :=
      List.find?_isSome.mpr ⟨d, hd, by simp [hname]⟩
    obtain ⟨d', hd'⟩ := Option.isSome_iff_exists.mp hsome
    have hname' : d'.name = Entity.name f := by simpa using List.find?_some hd'
    have hvalue := honly _ (mem_of_mem_edits hes (List.mem_of_find?_eq_some hd')) hname'
    have hmem := List.mem_of_find?_eq_some (hl.field?_name f)
    rw [setFields_get hl hd' hy (.inl hmem)]
    exact hvalue
  · intro hnil
    rw [List.map_eq_nil_iff] at hnil
    rw [hnil] at hd
    cases hd

theorem Fit.append {changes more : Changes} (h : Fit R changes) (h' : Fit R more) :
    Fit R (changes ++ more) := by
  intro c hc
  rcases List.mem_append.mp hc with hc | hc
  · exact h c hc
  · exact h' c hc

theorem Fit.except {args : Arguments} (h : Fit R args) (excluded : List String) :
    Fit R (args.except excluded) :=
  fun c hc => h c (Arguments.mem_of_mem_except hc)

end Changes

end Rules

/-! ## What a line gives -/

/-- The option can give the value. -/
def CommandOption.Gives (o : CommandOption) (v : Value) : Prop :=
  match o.kind with
  | .flag => v = .bool true
  | .value c => ∃ raw fps, c raw fps = .ok v

theorem Value.mem_put {key : String} {v : Value} {fields : List (String × Value)}
    {f : String × Value} (h : f ∈ put key v fields) : f = (key, v) ∨ f ∈ fields := by
  induction fields with
  | nil => exact .inl (List.mem_singleton.mp h)
  | cons g r ih =>
      unfold put at h
      split at h
      · exact (List.mem_cons.mp h).imp_right (List.mem_cons_of_mem _)
      · rcases List.mem_cons.mp h with rfl | h
        · exact .inr List.mem_cons_self
        · exact (ih h).imp_right (List.mem_cons_of_mem _)

theorem Value.mem_of_lookup {key : String} {v : Value} {fields : List (String × Value)}
    (h : fields.lookup key = some v) : (key, v) ∈ fields := by
  induction fields with
  | nil => cases h
  | cons f r ih =>
      obtain ⟨k, w⟩ := f
      rw [List.lookup_cons] at h
      split at h
      · rename_i hk
        rw [beq_iff_eq] at hk
        subst hk
        cases h
        exact List.mem_cons_self
      · exact List.mem_cons_of_mem _ (ih h)

namespace Grammar

variable {g : Grammar} {fps : Number} {given args : Arguments} {tokens : List String}

/-- What a line can give: a value of an option, or the bare token. -/
inductive Given (g : Grammar) : String × Value → Prop
  | option {o : CommandOption} {v : Value} : o ∈ g.options → o.Gives v → g.Given (o.name, v)
  | positional (s : String) : g.positional ≠ "" → g.Given (g.positional, .text s)

theorem convert_eq_ok {o : CommandOption} {c : Converter} {raw : String} {v : Value}
    (h : convert o c raw fps = .ok v) : c raw fps = .ok v := by
  unfold convert at h
  split at h
  · rename_i w hw
    rw [hw, h]
  · split at h <;> cases h

/-- An option takes the token behind it. -/
theorem scan_taking {token name long short hint raw : String} {c : Converter} {v : Value}
    (hoption : g.option? token = some (.taking name long short c hint))
    (hv : c raw fps = .ok v) :
    g.scan fps given (token :: raw :: tokens) = g.scan fps (Value.put name v given) tokens := by
  rw [scan, hoption]
  dsimp only [CommandOption.taking]
  rw [convert, hv]

theorem scan_given (h : g.scan fps given tokens = .ok args) (hgiven : ∀ f ∈ given, g.Given f) :
    ∀ f ∈ args, g.Given f := by
  fun_induction scan g fps given tokens with
  | case1 =>
      cases h
      exact hgiven
  | case2 | case4 | case6 | case7 => cases h
  | case3 given token rest _ _ hpositional ih =>
      refine ih h fun f hf => ?_
      rcases Value.mem_put hf with rfl | hf
      · rw [Bool.and_eq_true, Bool.not_eq_true', String.isEmpty_eq_false_iff] at hpositional
        exact .positional _ hpositional.1
      · exact hgiven f hf
  | case5 given token o ho rest hkind ih =>
      refine ih h fun f hf => ?_
      rcases Value.mem_put hf with rfl | hf
      · exact .option (mem_of_option? ho) (by simp only [CommandOption.Gives, hkind])
      · exact hgiven f hf
  | case8 given token o ho c raw rest hkind v hv ih =>
      refine ih h fun f hf => ?_
      rcases Value.mem_put hf with rfl | hf
      · refine .option (mem_of_option? ho) ?_
        simp only [CommandOption.Gives, hkind]
        exact ⟨raw, fps, convert_eq_ok hv⟩
      · exact hgiven f hf

/-- Every argument of a line that could be read was given by an option or is the bare token. -/
theorem given_of_parse (h : g.parse tokens fps = .ok args) : ∀ f ∈ args, g.Given f := by
  obtain ⟨given, hscan, horder⟩ := bind_eq_ok.mp h
  obtain ⟨-, rfl⟩ := inOrder_eq_ok.mp horder
  intro f hf
  obtain ⟨name, -, hf⟩ := List.mem_filterMap.mp hf
  obtain ⟨v, hv, rfl⟩ := Option.map_eq_some_iff.mp hf
  exact scan_given hscan (by simp) _ (Value.mem_of_lookup hv)

/-- A line gives a field one value. -/
theorem get?_of_mem (h : g.parse tokens fps = .ok args) {f : String × Value} (hf : f ∈ args) :
    args.get? f.1 = some f.2 := by
  have hfield := mem_fields_of_parse h f hf
  obtain ⟨given, -, horder⟩ := bind_eq_ok.mp h
  unfold Arguments.get?
  rw [lookup_inOrder horder hfield]
  obtain ⟨-, rfl⟩ := inOrder_eq_ok.mp horder
  obtain ⟨name, -, hf⟩ := List.mem_filterMap.mp hf
  obtain ⟨v, hv, rfl⟩ := Option.map_eq_some_iff.mp hf
  exact hv

theorem eq_of_mem_except (h : g.parse tokens fps = .ok args) {name : String} {v : Value}
    {excluded : List String} (hv : args.get? name = some v) :
    ∀ d ∈ args.except excluded, d.1 = name → d.2 = v := by
  rintro d hd rfl
  exact Option.some.inj ((get?_of_mem h (Arguments.mem_of_mem_except hd)).symm.trans hv)

/-- A field that one option alone fills holds a value of this option, or the bare token. -/
theorem gives_of_parse {o : CommandOption} {name : String} {v : Value}
    (ho : g.options.filter (·.name == name) = [o]) (h : g.parse tokens fps = .ok args)
    (hv : args.get? name = some v) : o.Gives v ∨ ∃ s, v = .text s := by
  have hgiven := given_of_parse h _ (Value.mem_of_lookup hv)
  generalize hf : (name, v) = f at hgiven
  cases hgiven with
  | @option o' w ho' hw =>
      cases hf
      have hmem : o' ∈ g.options.filter (·.name == o'.name) :=
        List.mem_filter.mpr ⟨ho', beq_self_eq_true _⟩
      rw [ho, List.mem_singleton] at hmem
      exact .inl (hmem ▸ hw)
  | positional s =>
      cases hf
      exact .inr ⟨s, rfl⟩

/-- A field that an option fills with the text behind it, and that no other option fills, holds a
text. -/
theorem isText_of_parse {o : CommandOption} {name : String} {v : Value}
    (ho : g.options.filter (·.name == name) = [o]) (htext : o.kind = .value Converter.text)
    (h : g.parse tokens fps = .ok args) (hv : args.get? name = some v) : v.IsText := by
  rcases gives_of_parse ho h hv with hgives | htoken
  · unfold CommandOption.Gives at hgives
    rw [htext] at hgives
    obtain ⟨raw, _, hraw⟩ := hgives
    cases hraw
    exact Value.isText_text raw
  · exact htoken

end Grammar

/-! ## Tables that fit -/

section Fits
variable {α : Type} [Entity α] {R : Entity.Field α → Value → Prop}

/-- What the option gives fits the field that it fills, if the entity has such a field. -/
def CommandOption.Fits (R : Entity.Field α → Value → Prop) (o : CommandOption) : Prop :=
  ∀ v, o.Gives v → ∀ f, Entity.field? o.name = some f → R f v

/-- What a line of the grammar gives fits the fields. -/
structure Grammar.Fits (R : Entity.Field α → Value → Prop) (g : Grammar) : Prop where
  options : ∀ o ∈ g.options, o.Fits R
  positional : Entity.field? (α := α) g.positional = none

namespace CommandOption

/-- A converter that answers with what the field may hold. -/
theorem Fits.taking {name long short hint : String} {c : Converter} {f : Entity.Field α}
    (hf : Entity.field? name = some f) (h : ∀ raw fps v, c raw fps = .ok v → R f v) :
    (CommandOption.taking name long short c hint).Fits R := by
  rintro v ⟨raw, fps, hv⟩ f' hf'
  cases hf.symm.trans hf'
  exact h raw fps v hv

/-- An option that fills no field of the entity. -/
theorem Fits.other {o : CommandOption} (h : Entity.field? (α := α) o.name = none) :
    o.Fits R := by
  intro v _ f hf
  cases h.symm.trans hf

end CommandOption

/-- The rule leaves all but the fields with these names free. -/
def Restricts (names : List String) (R : Entity.Field α → Value → Prop) : Prop :=
  ∀ f : Entity.Field α, Entity.name f ∉ names → ∀ v, R f v

/-- Only the options for the restricted fields have to be looked at. -/
theorem Grammar.Fits.of_restricts {g : Grammar} {names : List String} (hR : Restricts names R)
    (hoptions : ∀ o ∈ g.options.filter (fun o => names.contains o.name), o.Fits R)
    (hpositional : Entity.field? (α := α) g.positional = none) : g.Fits R where
  options o ho := by
    by_cases hname : names.contains o.name = true
    · exact hoptions o (List.mem_filter.mpr ⟨ho, hname⟩)
    · intro v _ f hf
      have hf := Entity.name_of_field? hf
      exact hR f (fun hmem => hname (by rw [← hf]; simpa using hmem)) v
  positional := hpositional

/-- The arguments of a line fit the fields. -/
theorem Grammar.Fits.arguments {g : Grammar} (hg : g.Fits R) {tokens : List String} {fps : Number}
    {args : Arguments} (h : g.parse tokens fps = .ok args) : Changes.Fit R args := by
  intro c hc f hf
  cases given_of_parse h c hc with
  | option ho hv => exact hg.options _ ho _ hv f hf
  | positional s =>
      rw [hg.positional] at hf
      cases hf

end Fits

end Montage
