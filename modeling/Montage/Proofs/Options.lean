/-
# Tokens and the fields they fill

A grammar gives a token its meaning by its place: behind an option that takes a
value the next token is that value, whatever it looks like.  `values` lists the
tokens that are read as values.  A switch that stands among the tokens is then
either set or one of these (`scan_switch`), and no third thing can have become
of it in a line that could be read.
-/
import Montage.Options.Arguments
import Montage.Proofs.Peel

namespace Montage

theorem Value.lookup_put {key k : String} {v : Value} {fields : List (String × Value)} :
    (put key v fields).lookup k = if k == key then some v else fields.lookup k := by
  induction fields with
  | nil => cases hk : k == key <;> simp [put, List.lookup_cons, hk]
  | cons f r ih =>
      obtain ⟨name, w⟩ := f
      unfold put
      by_cases hname : name = key
      · subst hname
        cases hk : k == name <;> simp [List.lookup_cons, hk]
      · have hne : (name == key) = false := by simpa using hname
        rw [hne]
        simp only [Bool.false_eq_true, if_false, List.lookup_cons, ih]
        cases hk : k == name with
        | false => rfl
        | true =>
            have heq : k = name := by simpa using hk
            subst heq
            simp [hne]

namespace Arguments

theorem get?_of_text? {args : Arguments} {name s : String}
    (h : args.text? name = some s) : args.get? name = some (.text s) := by
  unfold text? at h
  split at h
  · rename_i hlookup
    cases h
    exact hlookup
  · cases h

theorem ne_of_mem_except {args : Arguments} {names : List String} {name : String}
    {f : String × Value} (h : f ∈ args.except names) (hname : name ∈ names) : f.1 ≠ name := by
  rintro rfl
  have hnot := (List.mem_filter.mp h).2
  simp [hname] at hnot

theorem mem_of_mem_except {args : Arguments} {names : List String}
    {f : String × Value} (h : f ∈ args.except names) : f ∈ args := (List.mem_filter.mp h).1

theorem isSet_put {args : Arguments} {key name : String} {v : Value} :
    isSet (Value.put key v args) name = if name == key then v.isTruthy else args.isSet name := by
  unfold isSet
  rw [Value.lookup_put]
  split <;> rfl

/-! ## Fields picked and left out -/

section Pick
variable {args : Arguments} {xs ys : List String} {name : String}

/-- The fields that are among the given ones. -/
def only (args : Arguments) (kept : List String) : Arguments :=
  args.filter fun f => kept.contains f.1

theorem lookup_filter (keep : String → Bool) :
    (args.filter fun f => keep f.1).lookup name = if keep name then args.lookup name else none := by
  induction args with
  | nil => cases keep name <;> rfl
  | cons f r ih =>
      obtain ⟨key, v⟩ := f
      rw [List.filter_cons]
      by_cases hkey : name = key
      · subst hkey
        cases hkeep : keep name <;> simp [hkeep, ih]
      · have hne : (name == key) = false := by simpa using hkey
        cases hkeep : keep key <;> simp [ih, List.lookup_cons, hne]

theorem lookup_except (h : name ∉ xs) : (args.except xs).lookup name = args.lookup name := by
  rw [except, lookup_filter fun k => !xs.contains k, if_pos (by simpa using h)]

end Pick

end Arguments

namespace Grammar

/-! ## The fields in order -/

variable {g : Grammar} {fps : Number} {given args : Arguments}

theorem inOrder_eq_ok :
    g.inOrder given = .ok args ↔ (∀ f ∈ given, f.1 ∈ g.fields) ∧
      (g.fields.filterMap fun f => (given.lookup f).map fun v => (f, v)) = args := by
  have hall : (given.all fun f => g.fields.contains f.1) = true ↔ ∀ f ∈ given, f.1 ∈ g.fields := by
    simp
  unfold inOrder
  split
  · rename_i h
    rw [Except.ok.injEq]
    exact ⟨fun hargs => ⟨hall.mp h, hargs⟩, fun ⟨_, hargs⟩ => hargs⟩
  · rename_i h
    exact ⟨nofun, fun ⟨hmem, _⟩ => absurd (hall.mpr hmem) h⟩

theorem lookup_filterMap {fields : List String} {name : String} (h : name ∈ fields) :
    (fields.filterMap fun f => (given.lookup f).map fun v => (f, v)).lookup name =
      given.lookup name := by
  induction fields with
  | nil => cases h
  | cons f fs ih =>
      rw [List.filterMap_cons]
      by_cases hname : name = f
      · subst hname
        cases hv : given.lookup name with
        | some v => simp
        | none =>
            rw [Option.map_none]
            by_cases hmem : name ∈ fs
            · exact (ih hmem).trans hv
            · rw [List.lookup_eq_none_iff]
              intro p hp
              obtain ⟨f, hf, hp⟩ := List.mem_filterMap.mp hp
              obtain ⟨v, -, rfl⟩ := Option.map_eq_some_iff.mp hp
              rw [bne_iff_ne]
              rintro rfl
              exact hmem hf
      · have hmem := (List.mem_cons.mp h).resolve_left hname
        cases hv : given.lookup f with
        | none => exact ih hmem
        | some v =>
            have hne : (name == f) = false := by simpa using hname
            simp only [Option.map_some, List.lookup_cons, hne]
            exact ih hmem

/-- The parsed arguments give a field of the grammar the value that was read. -/
theorem lookup_inOrder {name : String} (h : g.inOrder given = .ok args) (hname : name ∈ g.fields) :
    args.lookup name = given.lookup name := by
  obtain ⟨-, rfl⟩ := inOrder_eq_ok.mp h
  exact lookup_filterMap hname

/-- The parsed arguments are fields of the grammar. -/
theorem mem_fields_of_parse {tokens : List String} (h : g.parse tokens fps = .ok args) :
    ∀ f ∈ args, f.1 ∈ g.fields := by
  obtain ⟨given, -, horder⟩ := bind_eq_ok.mp h
  obtain ⟨-, rfl⟩ := inOrder_eq_ok.mp horder
  intro f hf
  obtain ⟨name, hname, hf⟩ := List.mem_filterMap.mp hf
  obtain ⟨v, -, rfl⟩ := Option.map_eq_some_iff.mp hf
  exact hname

/-- What is no field of the grammar is not given. -/
theorem get?_of_parse {tokens : List String} {name : String} (h : g.parse tokens fps = .ok args)
    (hname : name ∉ g.fields) : args.get? name = none := by
  refine List.lookup_eq_none_iff.mpr fun f hf => bne_iff_ne.mpr ?_
  rintro rfl
  exact hname (mem_fields_of_parse h f hf)

/-! ## Values and switches -/

/-- The tokens that are read as the values of options. -/
def values (g : Grammar) : List String → List String
  | [] => []
  | token :: rest =>
    match g.option? token with
    | none => g.values rest
    | some o =>
      match o.kind, rest with
      | .value _, raw :: rest => raw :: g.values rest
      | _, rest => g.values rest

theorem mem_of_mem_values {tokens : List String} {t : String} (h : t ∈ g.values tokens) :
    t ∈ tokens := by
  fun_induction values g tokens with
  | case1 => cases h
  | case2 token rest _ ih => exact List.mem_cons_of_mem _ (ih h)
  | case3 token o _ c _ raw rest ih =>
      rcases List.mem_cons.mp h with rfl | h
      · simp
      · exact List.mem_cons_of_mem _ (List.mem_cons_of_mem _ (ih h))
  | case4 token o _ rest _ ih => exact List.mem_cons_of_mem _ (ih h)

/-- The grammar fills a field by switches only, which the given tokens name. -/
structure HasSwitch (g : Grammar) (name : String) (tokens : List String) : Prop where
  named : ∀ t ∈ tokens, ∃ o, g.option? t = some o ∧ o.name = name
  flag : ∀ o ∈ g.options, o.name = name → o.kind = .flag
  positional : g.positional ≠ name
  field : name ∈ g.fields

instance (k : OptionKind) : Decidable (k = .flag) :=
  match k with
  | .flag => isTrue rfl
  | .value _ => isFalse nofun

theorem mem_of_option? {token : String} {o : CommandOption} (h : g.option? token = some o) :
    o ∈ g.options :=
  List.mem_reverse.mp (List.mem_of_find?_eq_some h)

section Switch
variable {name t : String} {tokens switches : List String}

/-- What sets a switch is never undone. -/
theorem scan_isSet (hg : g.HasSwitch name switches) (h : g.scan fps given tokens = .ok args)
    (hset : given.isSet name = true) : args.isSet name = true := by
  fun_induction scan g fps given tokens with
  | case1 given =>
      cases h
      exact hset
  | case2 | case4 | case6 | case7 => cases h
  | case3 given token rest _ _ _ ih =>
      refine ih h ?_
      rw [Arguments.isSet_put, if_neg (by simpa using hg.positional.symm)]
      exact hset
  | case5 given token o _ rest hkind ih =>
      refine ih h ?_
      rw [Arguments.isSet_put]
      split
      · rfl
      · exact hset
  | case8 given token o ho c raw rest hkind v hv ih =>
      refine ih h ?_
      have hne : o.name ≠ name := fun hname => by
        have hflag := hg.flag o (mem_of_option? ho) hname
        rw [hflag] at hkind
        cases hkind
      rw [Arguments.isSet_put, if_neg (by simpa using hne.symm)]
      exact hset

/-- A token for a switch either sets it or is the value of an option. -/
theorem scan_switch (hg : g.HasSwitch name switches) (h : g.scan fps given tokens = .ok args)
    (ht : t ∈ tokens) (hswitch : t ∈ switches) : t ∈ g.values tokens ∨ args.isSet name = true := by
  obtain ⟨s, hs, hsname⟩ := hg.named t hswitch
  have hsflag : s.kind = .flag := hg.flag s (mem_of_option? hs) hsname
  fun_induction scan g fps given tokens with
  | case1 => cases ht
  | case2 | case4 | case6 | case7 => cases h
  | case3 given token rest ho _ _ ih =>
      rcases List.mem_cons.mp ht with rfl | ht
      · rw [hs] at ho
        cases ho
      · unfold values
        rw [ho]
        exact ih h ht
  | case5 given token o ho rest hkind ih =>
      rcases List.mem_cons.mp ht with rfl | ht
      · rw [hs] at ho
        cases ho
        refine .inr (scan_isSet hg h ?_)
        rw [Arguments.isSet_put, hsname, if_pos (by simp)]
        rfl
      · unfold values
        simp only [ho, hkind]
        exact ih h ht
  | case8 given token o ho c raw rest hkind v hv ih =>
      unfold values
      simp only [ho, hkind]
      rcases List.mem_cons.mp ht with rfl | ht
      · rw [hs] at ho
        cases ho
        rw [hsflag] at hkind
        cases hkind
      · rcases List.mem_cons.mp ht with rfl | ht
        · exact .inl List.mem_cons_self
        · exact (ih h ht).imp_left (List.mem_cons_of_mem _)

/-- In a line that can be read, a token for a switch either sets it or is the value of an
option. -/
theorem parse_switch (hg : g.HasSwitch name switches) (h : g.parse tokens fps = .ok args)
    (ht : t ∈ tokens) (hswitch : t ∈ switches) : t ∈ g.values tokens ∨ args.isSet name = true := by
  unfold parse at h
  obtain ⟨given, hscan, horder⟩ := bind_eq_ok.mp h
  refine (scan_switch hg hscan ht hswitch).imp_right fun hset => ?_
  unfold Arguments.isSet at hset ⊢
  rw [lookup_inOrder horder hg.field]
  exact hset

end Switch

end Grammar

end Montage
