/-
# What the options give

Whatever text stands behind an option, its converter refuses it or answers with a
`Definite` value: a truth value, a number other than `nan`, or a text.  So everything
that a line puts into a project is definite, and such a value can be written, is not
absent, and compares with itself.

With few exceptions the number is finite, too: an integer, or a float between bounds.
The options that take decimal numbers without an upper bound are `unbounded`.  One walk
through the tables tells both (`Grammar.Offers`).
-/
import Montage.Proofs.Bounds
import Montage.Proofs.Effect
import Montage.Proofs.Fields

namespace Montage

namespace Value

/-- A truth value, a number other than `nan`, or a text. -/
inductive Definite : Value → Prop
  | bool (b : Bool) : Definite (.bool b)
  | int (n : Int) : Definite (.int n)
  | float {x : Binary64} : x ≠ .nan → Definite (.float x)
  | text (s : String) : Definite (.text s)

/-- A truth value, a finite number, or a text. -/
inductive Bounded : Value → Prop
  | bool (b : Bool) : Bounded (.bool b)
  | int (n : Int) : Bounded (.int n)
  | float {x : Binary64} : x.isFinite = true → Bounded (.float x)
  | text (s : String) : Bounded (.text s)

theorem Definite.ne_null {v : Value} (h : v.Definite) : v ≠ .null := by
  cases h <;> exact nofun

theorem Bounded.definite {v : Value} (h : v.Bounded) : v.Definite := by
  cases h with
  | bool b => exact .bool b
  | int n => exact .int n
  | float hx =>
      refine .float ?_
      rintro rfl
      cases hx
  | text s => exact .text s

end Value

/-! ## Converters -/

namespace Converter

/-- The converter answers with definite values only. -/
def Definite (c : Converter) : Prop := ∀ raw fps v, c raw fps = .ok v → v.Definite

theorem Definite.ne_null {c : Converter} (h : c.Definite) :
    ∀ raw fps v, c raw fps = .ok v → v ≠ .null :=
  fun raw fps v hv => (h raw fps v hv).ne_null

/-- The converter answers with bounded values only. -/
def Bounded (c : Converter) : Prop := ∀ raw fps v, c raw fps = .ok v → v.Bounded

@[simp] theorem bounded_text : Bounded text := by
  rintro raw fps v ⟨⟩
  exact .text raw

@[simp] theorem bounded_wholeBetween (low high : Number) : Bounded (wholeBetween low high) := by
  intro raw fps v h
  obtain ⟨n, -, h⟩ := bind_eq_ok.mp h
  obtain ⟨-, h⟩ := guard_eq_ok.mp h
  cases h
  exact .int n

@[simp] theorem bounded_whole : Bounded whole := by
  intro raw fps v h
  obtain ⟨n, -, rfl⟩ := map_eq_ok.mp h
  exact .int n

@[simp] theorem bounded_positiveWhole : Bounded positiveWhole := by
  intro raw fps v h
  obtain ⟨n, rfl, -⟩ := positiveWhole_eq_ok h
  exact .int n

theorem decimal_ne_nan {raw : String} {x : Binary64} (h : decimal raw = .ok x) : x ≠ .nan := by
  unfold decimal at h
  split at h
  · rename_i hread
    cases h
    exact float?_ne_nan hread
  · cases h

@[simp] theorem definite_number : Definite number := by
  intro raw fps v h
  obtain ⟨x, hx, rfl⟩ := map_eq_ok.mp h
  exact .float (decimal_ne_nan hx)

@[simp] theorem definite_positiveNumber : Definite positiveNumber := by
  intro raw fps v h
  obtain ⟨x, hx, h⟩ := bind_eq_ok.mp h
  split at h
  · cases h
    exact .float (decimal_ne_nan hx)
  · cases h

/-- A number between finite ones is finite. -/
theorem bounded_numberBetween {low high : Binary64} (hlow : low.isFinite = true)
    (hhigh : high.isFinite = true) : Bounded (numberBetween (.float low) (.float high)) := by
  have hnan {x : Binary64} (hx : x.isFinite = true) : x ≠ .nan := by
    rintro rfl
    cases hx
  intro raw fps v h
  obtain ⟨x, rfl⟩ : ∃ x, v = .float x := by
    unfold numberBetween at h
    split at h
    · obtain ⟨_, -, h⟩ := bind_eq_ok.mp h
      cases h
    · split at h
      · obtain ⟨_, -, h⟩ := bind_eq_ok.mp h
        cases h
      · cases h
        exact ⟨_, rfl⟩
  exact .float (Value.isFinite_of_between hlow hhigh
    (numberBetween_eq_ok (hnan hlow) (hnan hhigh) h))

@[simp] theorem bounded_volume : Bounded volume :=
  bounded_numberBetween (by decide +kernel) (by decide +kernel)

@[simp] theorem bounded_opacity : Bounded opacity :=
  bounded_numberBetween (by decide +kernel) (by decide +kernel)

@[simp] theorem bounded_toneFrequency : Bounded toneFrequency :=
  bounded_numberBetween (by decide +kernel) (by decide +kernel)

@[simp] theorem bounded_truth : Bounded truth := by
  intro raw fps v h
  unfold truth at h
  split at h
  · cases h
    exact .bool true
  · split at h
    · cases h
      exact .bool false
    · cases h

@[simp] theorem bounded_duration : Bounded duration := by
  intro raw fps v h
  obtain ⟨n, rfl, -⟩ := duration_eq_ok h
  exact .int n

@[simp] theorem bounded_positiveDuration : Bounded positiveDuration := by
  intro raw fps v h
  obtain ⟨n, rfl, -⟩ := positiveDuration_eq_ok h
  exact .int n

@[simp] theorem bounded_textAlign : Bounded textAlign := by
  intro raw fps v h
  unfold textAlign choice at h
  split at h
  · cases h
    exact .text _
  · split at h <;> cases h

@[simp] theorem bounded_color : Bounded color := by
  intro raw fps v h
  unfold color at h
  split at h
  · cases h
    exact .text raw
  · cases h

@[simp] theorem bounded_position : Bounded position := by
  intro raw fps v h
  unfold position at h
  obtain ⟨-, h⟩ := guard_eq_ok.mp h
  cases h
  exact .text _

end Converter

/-! ## Options and grammars -/

/-- The options whose numbers have no upper bound. -/
def unbounded : List String := ["playback_rate", "left", "top", "width", "height", "rotation"]

/-- A bounded value, or a definite one of an option without an upper bound. -/
def Value.Offered (name : String) (v : Value) : Prop :=
  v.Bounded ∨ name ∈ unbounded ∧ v.Definite

theorem Value.Offered.definite {name : String} {v : Value} (h : v.Offered name) : v.Definite := by
  rcases h with h | ⟨-, h⟩
  · exact h.definite
  · exact h

/-- What the option gives is definite, and bounded unless it has no upper bound. -/
def CommandOption.Offers (o : CommandOption) : Prop := ∀ v, o.Gives v → v.Offered o.name

namespace CommandOption

@[simp] theorem offers_of_bounded {name long short hint : String} {c : Converter}
    (h : c.Bounded) : (taking name long short c hint).Offers := by
  rintro v ⟨raw, fps, hv⟩
  exact .inl (h raw fps v hv)

@[simp] theorem offers_of_unbounded {name long short hint : String} {c : Converter}
    (hname : unbounded.contains name = true) (h : c.Definite) :
    (taking name long short c hint).Offers := by
  rintro v ⟨raw, fps, hv⟩
  exact .inr ⟨List.contains_iff_mem.mp hname, h raw fps v hv⟩

@[simp] theorem offers_flag (name long short : String) : (flag name long short).Offers := by
  rintro v rfl
  exact .inl (.bool true)

@[simp] theorem offers_id : CommandOption.id.Offers := by simp [CommandOption.id]

@[simp] theorem offers_pageId : pageId.Offers := by simp [pageId]

@[simp] theorem offers_src : src.Offers := by simp [src]

@[simp] theorem offers_length (hint : String) : (length hint).Offers := by simp [length]

@[simp] theorem offers_delay (hint : String) : (delay hint).Offers := by simp [delay]

end CommandOption

namespace Grammar

variable {g : Grammar} {tokens : List String} {fps : Number} {args : Arguments}

/-- What every option of the grammar gives is definite, and bounded unless it has no upper bound. -/
def Offers (g : Grammar) : Prop := ∀ o ∈ g.options, o.Offers

/-- What a line of such a grammar gives. -/
theorem Offers.of_parse (hg : g.Offers) (h : g.parse tokens fps = .ok args) :
    ∀ f ∈ args, f.2.Offered f.1 := by
  intro f hf
  cases given_of_parse h f hf with
  | option ho hv => exact hg _ ho _ hv
  | positional s => exact .inl (.text s)

end Grammar

theorem Tracks.createGrammar_offers : createGrammar.Offers := by
  simp [Grammar.Offers, createGrammar, valueOptions, unbounded]

theorem Tracks.changeGrammar_offers : changeGrammar.Offers := by
  simp [Grammar.Offers, changeGrammar, valueOptions, unbounded]

theorem Elements.grammar_offers {r : Recipe} (hr : r ∈ recipes) : r.grammar.Offers := by
  simp only [recipes, List.mem_cons, List.not_mem_nil, or_false] at hr
  rcases hr with rfl | rfl | rfl <;>
    simp [Grammar.Offers, text, image, video, textGrammar, mediaGrammar, textOptions,
      geometryOptions, timingOptions, copyOption, unbounded]

theorem Elements.changeGrammar_offers : changeGrammar.Offers := by
  simp [Grammar.Offers, changeGrammar, textOptions, geometryOptions, timingOptions, unbounded]

theorem Notes.createGrammar_offers : createGrammar.Offers := by
  simp [Grammar.Offers, createGrammar, textOption, timeOption]

theorem Notes.changeGrammar_offers : changeGrammar.Offers := by
  simp [Grammar.Offers, changeGrammar, textOption, timeOption]

theorem Pages.changeGrammar_offers : changeGrammar.Offers := by
  simp [Grammar.Offers, changeGrammar]

end Montage
