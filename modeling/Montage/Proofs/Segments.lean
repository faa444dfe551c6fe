/-
# A line as segments

The tokens of a line are read from left to right.  What a table of options lets
stand on a line can be said without the reader: a line is a row of segments, and
each of them fills one field.

    segment                       field            value
    the alias of a switch         of the switch    true
    an alias and a value          of the option    what the converter makes of it
    a bare token                  the positional   the token

The token behind an alias is a value whatever it looks like, so a segment is not
known by its tokens alone: which segments a line has is settled from its left end
(`Grammar.next`).  Where no segment fits, the tokens left over `Offend`, each in
one of five ways.

`exists_split` finds the segments and, if there is one, the offence behind them;
it speaks of the table alone.  The reader then has to be followed twice only, over
segments (`scan_segments`) and into an offence (`scan_offends`).
-/
import Mathlib.Data.List.Induction
import Mathlib.Data.List.Nodup
import Mathlib.Data.List.Pairwise
import Montage.Command.Elements
import Montage.Proofs.Fields

namespace Montage

/-- Some tokens of a line, the field that they fill and its value. -/
structure Segment where
  tokens : List String
  field : String
  value : Value

namespace Segment

/-- The tokens of a row of segments. -/
def line (ss : List Segment) : List String := ss.flatMap tokens

/-- The fields that a row of segments fills. -/
def filled (ss : List Segment) : List String := ss.map field

/-- The value of the last segment for a field. -/
def lastValue? (ss : List Segment) (name : String) : Option Value :=
  (ss.reverse.find? (·.field == name)).map value

/-- The values of the segments, put one after the other. -/
def gather (ss : List Segment) : Arguments :=
  ss.foldl (fun given s => Value.put s.field s.value given) []

section
variable {ss ss' : List Segment} {s : Segment} {name : String}

@[simp] theorem line_nil : line [] = [] := rfl

@[simp] theorem line_cons : line (s :: ss) = s.tokens ++ line ss := List.flatMap_cons

@[simp] theorem filled_append : filled (ss ++ ss') = filled ss ++ filled ss' := List.map_append

@[simp] theorem filled_cons : filled (s :: ss) = s.field :: filled ss := rfl

theorem gather_append_one :
    gather (ss ++ [s]) = Value.put s.field s.value (gather ss) := by
  rw [gather, List.foldl_append]
  rfl

theorem lastValue?_append_one :
    lastValue? (ss ++ [s]) name = if name == s.field then some s.value else lastValue? ss name := by
  unfold lastValue?
  rw [List.reverse_append, List.reverse_singleton, List.singleton_append, List.find?_cons,
    BEq.comm (a := name)]
  cases s.field == name <;> rfl

/-- A field that is filled again has the last value. -/
theorem lookup_gather : (gather ss).lookup name = lastValue? ss name := by
  induction ss using List.reverseRecOn with
  | nil => rfl
  | append_singleton ss s ih =>
      rw [gather_append_one, Value.lookup_put, lastValue?_append_one, ih]

theorem mem_filled_of_gather {f : String × Value} (h : f ∈ gather ss) : f.1 ∈ filled ss := by
  induction ss using List.reverseRecOn with
  | nil => cases h
  | append_singleton ss s ih =>
      rw [gather_append_one] at h
      rw [filled_append]
      rcases Value.mem_put h with rfl | h
      · exact List.mem_append_right _ List.mem_cons_self
      · exact List.mem_append_left _ (ih h)

theorem lastValue?_eq_none : lastValue? ss name = none ↔ name ∉ filled ss := by
  simp [lastValue?, filled]

/-- Rows that agree on each field fill it alike. -/
theorem lastValue?_congr
    (h : ss.filter (·.field == name) = ss'.filter (·.field == name)) :
    lastValue? ss name = lastValue? ss' name := by
  unfold lastValue?
  rw [← List.head?_filter, ← List.head?_filter, List.filter_reverse, List.filter_reverse, h]

end

end Segment

namespace Grammar

variable {g : Grammar} {fps : Number} {given : Arguments} {before after ss : List Segment}
  {s : Segment} {token : String} {tokens rest : List String} {o : CommandOption} {f : Fault}

/-! ## What a table lets stand on a line -/

/-- The token names an option. -/
def IsAlias (g : Grammar) (token : String) : Prop := ∃ o ∈ g.options, token ∈ o.aliases

instance (g : Grammar) (token : String) : Decidable (g.IsAlias token) :=
  inferInstanceAs (Decidable (∃ o ∈ g.options, token ∈ o.aliases))

/-- The tokens of the segment give its field the value. -/
inductive Accepts (g : Grammar) (fps : Number) : Segment → Prop
  | switch {o : CommandOption} {token : String} : o ∈ g.options → token ∈ o.aliases →
      o.kind = .flag → g.Accepts fps ⟨[token], o.name, .bool true⟩
  | value {o : CommandOption} {c : Converter} {token raw : String} {v : Value} :
      o ∈ g.options → token ∈ o.aliases → o.kind = .value c → c raw fps = .ok v →
      g.Accepts fps ⟨[token, raw], o.name, v⟩
  | bare {token : String} : g.positional ≠ "" → ¬ g.IsAlias token →
      token.toList.head? ≠ some '-' → g.Accepts fps ⟨[token], g.positional, .text token⟩

/-- The segments may stand on one line in this order. -/
structure Allows (g : Grammar) (fps : Number) (ss : List Segment) : Prop where
  accepted : ∀ s ∈ ss, g.Accepts fps s
  once : g.positional ≠ "" → (Segment.filled ss).count g.positional ≤ 1

/-- The line splits into the segments. -/
structure Splits (g : Grammar) (fps : Number) (tokens : List String) (ss : List Segment) :
    Prop extends g.Allows fps ss where
  joined : Segment.line ss = tokens

/-- No segment begins the tokens that stand behind the given ones, and the fault says why. -/
inductive Offends (g : Grammar) (fps : Number) (before : List Segment) :
    List String → Fault → Prop
  | unknown {token : String} {rest : List String} : ¬ g.IsAlias token →
      token.toList.head? = some '-' →
      g.Offends fps before (token :: rest) (.problem (.unknownOption token g.command))
  | unexpected {token : String} {rest : List String} : ¬ g.IsAlias token →
      token.toList.head? ≠ some '-' →
      (g.positional = "" ∨ g.positional ∈ Segment.filled before) →
      g.Offends fps before (token :: rest) (g.unexpected token)
  | missing {o : CommandOption} {c : Converter} {token : String} : o ∈ g.options →
      token ∈ o.aliases → o.kind = .value c →
      g.Offends fps before [token] (.problem (.missingValue o.long o.hint))
  | refused {o : CommandOption} {c : Converter} {token raw reason : String} {f : Fault}
      {rest : List String} : o ∈ g.options → token ∈ o.aliases → o.kind = .value c →
      c raw fps = .error f → f.badValue? = some reason →
      g.Offends fps before (token :: raw :: rest) (.invalid ("Invalid " ++ o.label)
        (o.label ++ " " ++ reason ++ ". Got '" ++ raw ++ "'"))
  | failed {o : CommandOption} {c : Converter} {token raw : String} {f : Fault}
      {rest : List String} : o ∈ g.options → token ∈ o.aliases → o.kind = .value c →
      c raw fps = .error f → f.badValue? = none →
      g.Offends fps before (token :: raw :: rest) f

/-- No alias is declared twice, the positional is no option, and what can be given is a field. -/
structure WellFormed (g : Grammar) : Prop where
  aliases : (g.options.flatMap CommandOption.aliases).Nodup
  fields : ∀ o ∈ g.options, o.name ∈ g.fields
  positional : g.positional ≠ "" →
    (∀ o ∈ g.options, o.name ≠ g.positional) ∧ g.positional ∈ g.fields

instance (g : Grammar) : Decidable g.WellFormed :=
  decidable_of_iff
    ((g.options.flatMap CommandOption.aliases).Nodup ∧ (∀ o ∈ g.options, o.name ∈ g.fields) ∧
      (g.positional ≠ "" →
        (∀ o ∈ g.options, o.name ≠ g.positional) ∧ g.positional ∈ g.fields))
    ⟨fun ⟨ha, hf, hp⟩ => ⟨ha, hf, hp⟩, fun h => ⟨h.aliases, h.fields, h.positional⟩⟩

namespace Allows

theorem nil : g.Allows fps [] := ⟨nofun, fun _ => Nat.zero_le 1⟩

theorem of_append (h : g.Allows fps (before ++ after)) : g.Allows fps before where
  accepted s hs := h.accepted s (List.mem_append_left _ hs)
  once hp := by
    have honce := h.once hp
    rw [Segment.filled_append, List.count_append] at honce
    omega

/-- A segment for another field than the positional may stand behind any others. -/
theorem snoc (h : g.Allows fps before) (hs : g.Accepts fps s)
    (hfield : g.positional ≠ "" → s.field ≠ g.positional ∨ g.positional ∉ Segment.filled before) :
    g.Allows fps (before ++ [s]) where
  accepted t ht := by
    rcases List.mem_append.mp ht with ht | ht
    · exact h.accepted t ht
    · exact List.mem_singleton.mp ht ▸ hs
  once hp := by
    rw [Segment.filled_append, List.count_append]
    have honce := h.once hp
    rcases hfield hp with hne | hfree
    · have hnone : (Segment.filled [s]).count g.positional = 0 := by simp [Segment.filled, hne]
      omega
    · have hnone := List.count_eq_zero_of_not_mem hfree
      have hone : (Segment.filled [s]).count g.positional ≤ 1 := List.count_le_length
      omega

/-- A bare segment is the only one. -/
theorem free (h : g.Allows fps (before ++ [s])) (hp : g.positional ≠ "")
    (hs : s.field = g.positional) : g.positional ∉ Segment.filled before := by
  intro hmem
  have honce := h.once hp
  have hpos := List.count_pos_iff.mpr hmem
  have hone : (Segment.filled [s]).count g.positional = 1 := by simp [Segment.filled, hs]
  rw [Segment.filled_append, List.count_append] at honce
  omega

/-- What may stand on a line does not depend on the order of segments for different fields. -/
theorem congr {ss' : List Segment} (h : g.Allows fps ss)
    (hagree : ∀ name, ss.filter (·.field == name) = ss'.filter (·.field == name)) :
    g.Allows fps ss' where
  accepted s hs := by
    have hmem : s ∈ ss'.filter (·.field == s.field) := by simpa using hs
    rw [← hagree] at hmem
    exact h.accepted s (List.mem_of_mem_filter hmem)
  once hp := by
    have hcount (l : List Segment) : (Segment.filled l).count g.positional
        = (l.filter (·.field == g.positional)).length := by
      rw [Segment.filled, List.count, List.countP_map, List.countP_eq_length_filter]
      rfl
    rw [hcount, ← hagree, ← hcount]
    exact h.once hp

end Allows

/-! ## The segments of a line -/

/-- From the left end of a line, either a segment can be taken or the line offends there. -/
theorem next (hg : g.WellFormed) (h : g.Allows fps before) (hne : tokens ≠ []) :
    (∃ s rest, tokens = s.tokens ++ rest ∧ s.tokens ≠ [] ∧ g.Allows fps (before ++ [s])) ∨
      ∃ f, g.Offends fps before tokens f := by
  obtain ⟨token, rest, rfl⟩ := List.exists_cons_of_ne_nil hne
  have hoption {o : CommandOption} (ho : o ∈ g.options) (hp : g.positional ≠ "") :
      o.name ≠ g.positional ∨ g.positional ∉ Segment.filled before :=
    .inl ((hg.positional hp).1 o ho)
  by_cases halias : g.IsAlias token
  · obtain ⟨o, ho, hmem⟩ := halias
    cases hkind : o.kind with
    | flag => exact .inl ⟨_, rest, rfl, by simp, h.snoc (.switch ho hmem hkind) (hoption ho)⟩
    | value c =>
        cases rest with
        | nil => exact .inr ⟨_, .missing ho hmem hkind⟩
        | cons raw rest =>
            cases hv : c raw fps with
            | ok v =>
                exact .inl ⟨_, rest, rfl, by simp, h.snoc (.value ho hmem hkind hv) (hoption ho)⟩
            | error f =>
                cases hreason : f.badValue? with
                | some reason => exact .inr ⟨_, .refused ho hmem hkind hv hreason⟩
                | none => exact .inr ⟨_, .failed ho hmem hkind hv hreason⟩
  · by_cases hdash : token.toList.head? = some '-'
    · exact .inr ⟨_, .unknown halias hdash⟩
    · by_cases hp : g.positional = ""
      · exact .inr ⟨_, .unexpected halias hdash (.inl hp)⟩
      · by_cases hfree : g.positional ∈ Segment.filled before
        · exact .inr ⟨_, .unexpected halias hdash (.inr hfree)⟩
        · exact .inl ⟨_, rest, rfl, by simp, h.snoc (.bare hp halias hdash) fun _ => .inr hfree⟩

/-- A line is a row of segments, and if this is not all of it, the rest offends. -/
theorem exists_split (hg : g.WellFormed) (h : g.Allows fps before) (tokens : List String) :
    ∃ after rest, g.Allows fps (before ++ after) ∧ Segment.line after ++ rest = tokens ∧
      (rest = [] ∨ ∃ f, g.Offends fps (before ++ after) rest f) := by
  -- the tokens left over grow fewer, and the segments before them are any that are allowed
  induction hn : tokens.length using Nat.strongRecOn generalizing before tokens with
  | ind n ih =>
      by_cases hne : tokens = []
      · exact ⟨[], [], by simpa using h, by simp [hne], .inl rfl⟩
      · rcases next hg h hne with ⟨s, rest, rfl, hs, hallows⟩ | ⟨f, hoffends⟩
        · have hpos := List.length_pos_of_ne_nil hs
          rw [List.length_append] at hn
          obtain ⟨after, rest', hall, rfl, hend⟩ := ih rest.length (by omega) hallows rest rfl
          rw [List.append_assoc, List.singleton_append] at hall hend
          exact ⟨s :: after, rest', hall, by simp, hend⟩
        · exact ⟨[], tokens, by simpa using h, rfl, .inr ⟨f, by simpa using hoffends⟩⟩

/-! ## The reader on segments -/

theorem option?_eq_none : g.option? token = none ↔ ¬ g.IsAlias token := by
  simp [option?, IsAlias, List.find?_eq_none]

/-- Where no alias is declared twice, a token names one option. -/
theorem option?_of_mem (hg : g.WellFormed) (ho : o ∈ g.options) (hmem : token ∈ o.aliases) :
    g.option? token = some o := by
  cases hfound : g.option? token with
  | none => exact absurd ⟨o, ho, hmem⟩ (option?_eq_none.mp hfound)
  | some o' =>
      have hmem' : token ∈ o'.aliases := by simpa using List.find?_some hfound
      have hapart := (List.nodup_flatMap.mp hg.aliases).2
      have : Std.Symm (Function.onFun List.Disjoint CommandOption.aliases) :=
        ⟨fun _ _ h _ hx hy => h hy hx⟩
      refine congrArg some (Classical.byContradiction fun hne => ?_)
      exact hapart.forall (mem_of_option? hfound) ho hne hmem' hmem

/-- The reader goes over a segment and keeps its value; a bare one needs the positional free. -/
theorem scan_segment (hg : g.WellFormed) (hs : g.Accepts fps s)
    (hfree : g.positional ≠ "" → s.field = g.positional → given.lookup g.positional = none) :
    g.scan fps given (s.tokens ++ rest) =
      g.scan fps (Value.put s.field s.value given) rest := by
  cases hs with
  | switch ho hmem hkind =>
      rw [List.singleton_append, scan, option?_of_mem hg ho hmem]
      simp only [hkind]
  | value ho hmem hkind hv =>
      rw [List.cons_append, List.singleton_append, scan, option?_of_mem hg ho hmem]
      simp only [hkind, convert, hv]
  | bare hp halias hdash =>
      have hopen : (!g.positional.isEmpty && (given.lookup g.positional).isNone) = true := by
        simp [hp, hfree hp rfl]
      rw [List.singleton_append, scan, option?_eq_none.mpr halias]
      simp only [if_neg hdash, hopen, if_true]

/-- The reader goes over a row of segments. -/
theorem scan_segments (hg : g.WellFormed) (before : List Segment)
    (h : g.Allows fps (before ++ after)) :
    g.scan fps (Segment.gather before) (Segment.line after ++ rest) =
      g.scan fps (Segment.gather (before ++ after)) rest := by
  induction after generalizing before with
  | nil => simp
  | cons s after ih =>
      rw [← List.singleton_append, ← List.append_assoc] at h
      have hone := h.of_append
      rw [Segment.line_cons, List.append_assoc, scan_segment hg (hone.accepted s (by simp)),
        ← Segment.gather_append_one, ih _ h, List.append_assoc, List.singleton_append]
      intro hp hs
      rw [Segment.lookup_gather, Segment.lastValue?_eq_none]
      exact hone.free hp hs

/-- The reader stops at an offence. -/
theorem scan_offends (hg : g.WellFormed) (h : g.Offends fps before rest f) :
    g.scan fps (Segment.gather before) rest = .error f := by
  cases h with
  | unknown halias hdash =>
      rw [scan, option?_eq_none.mpr halias]
      simp only [if_pos hdash]
  | unexpected halias hdash hp =>
      have hclosed : (!g.positional.isEmpty &&
          ((Segment.gather before).lookup g.positional).isNone) = false := by
        rcases hp with hp | hp
        · simp [hp]
        · rw [← not_not (a := g.positional ∈ _), ← Segment.lastValue?_eq_none,
            ← Segment.lookup_gather] at hp
          rw [Option.isNone_eq_false_iff.mpr (Option.isSome_iff_ne_none.mpr hp), Bool.and_false]
      rw [scan, option?_eq_none.mpr halias]
      simp only [if_neg hdash, hclosed, Bool.false_eq_true, if_false]
  | missing ho hmem hkind =>
      rw [scan, option?_of_mem hg ho hmem]
      simp only [hkind]
  | refused ho hmem hkind hv hreason =>
      rw [scan, option?_of_mem hg ho hmem]
      simp only [hkind, convert, hv, hreason]
  | failed ho hmem hkind hv hreason =>
      rw [scan, option?_of_mem hg ho hmem]
      simp only [hkind, convert, hv, hreason]

/-! ## The arguments of a line -/

/-- What allowed segments fill are fields. -/
theorem Allows.mem_fields (hg : g.WellFormed) (h : g.Allows fps ss) :
    ∀ name ∈ Segment.filled ss, name ∈ g.fields := by
  intro name hname
  obtain ⟨s, hs, rfl⟩ := List.mem_map.mp hname
  cases h.accepted s hs with
  | switch ho | value ho => exact hg.fields _ ho
  | bare hp => exact (hg.positional hp).2

/-- The arguments of a line that splits into segments. -/
theorem parse_of_splits (hg : g.WellFormed) (h : g.Splits fps tokens ss) :
    g.parse tokens fps = .ok
      (g.fields.filterMap fun name => (Segment.lastValue? ss name).map fun v => (name, v)) := by
  have hscan : g.scan fps [] tokens = .ok (Segment.gather ss) := by
    have hrun : g.scan fps [] (Segment.line ss ++ []) = g.scan fps (Segment.gather ss) [] :=
      scan_segments hg [] h.toAllows
    rwa [List.append_nil, h.joined, scan] at hrun
  have hfields : ∀ f ∈ Segment.gather ss, f.1 ∈ g.fields := fun f hf =>
    h.toAllows.mem_fields hg _ (Segment.mem_filled_of_gather hf)
  rw [parse, hscan]
  refine inOrder_eq_ok.mpr ⟨hfields, ?_⟩
  simp only [Segment.lookup_gather]

/-- The refusal of a line behind whose segments something offends. -/
theorem parse_of_offends (hg : g.WellFormed) (h : g.Allows fps ss)
    (hjoined : Segment.line ss ++ rest = tokens) (hf : g.Offends fps ss rest f) :
    g.parse tokens fps = .error f := by
  have hrun : g.scan fps [] (Segment.line ss ++ rest) = g.scan fps (Segment.gather ss) rest :=
    scan_segments hg [] h
  rw [hjoined, scan_offends hg hf] at hrun
  rw [parse, hrun, error_bind]

/-- A line either splits or offends behind some of its segments. -/
theorem splits_or_offends (hg : g.WellFormed) (fps : Number) (tokens : List String) :
    (∃ ss, g.Splits fps tokens ss) ∨ ∃ ss rest f, g.Allows fps ss ∧
      Segment.line ss ++ rest = tokens ∧ g.Offends fps ss rest f := by
  obtain ⟨ss, rest, hallows, hjoined, rfl | ⟨f, hf⟩⟩ :=
    exists_split hg (Allows.nil : g.Allows fps []) tokens
  · rw [List.append_nil] at hjoined
    exact .inl ⟨ss, hallows, hjoined⟩
  · exact .inr ⟨ss, rest, f, hallows, hjoined, hf⟩

theorem get?_of_splits (hg : g.WellFormed) (h : g.Splits fps tokens ss) {args : Arguments}
    (hargs : g.parse tokens fps = .ok args) (name : String) :
    args.get? name = Segment.lastValue? ss name := by
  obtain rfl := Except.ok.inj ((parse_of_splits hg h).symm.trans hargs)
  unfold Arguments.get?
  simp only [← Segment.lookup_gather]
  by_cases hname : name ∈ g.fields
  · exact lookup_filterMap hname
  · have hnone : Segment.lastValue? ss name = none :=
      Segment.lastValue?_eq_none.mpr fun hmem => hname (h.toAllows.mem_fields hg name hmem)
    rw [Segment.lookup_gather, hnone, List.lookup_eq_none_iff]
    intro p hp
    obtain ⟨field, hfield, hp⟩ := List.mem_filterMap.mp hp
    obtain ⟨v, -, rfl⟩ := Option.map_eq_some_iff.mp hp
    rw [bne_iff_ne]
    rintro rfl
    exact hname hfield

/-- The reader against the grammar, for every table in which no alias is declared twice and the
positional is no option, at every frame rate.  A line can be read exactly if it splits into
segments: switches, aliases with a value that the converter takes, whatever the value looks like,
and at most one bare token, which is no alias and begins with no dash, if the command has a
positional.  The arguments then have for each field the value of its last segment and nothing for
any other; so segments for different fields may change places.  A line that cannot be read is
refused for what offends first: the tokens before it are segments, and the fault is its own. -/
theorem parse_by_segments (hg : g.WellFormed) (fps : Number) (tokens : List String) :
    ((∃ args, g.parse tokens fps = .ok args) ↔ ∃ ss, g.Splits fps tokens ss) ∧
    (∀ ss, g.Splits fps tokens ss →
      ∃ args, g.parse tokens fps = .ok args ∧
        ∀ name, args.get? name = Segment.lastValue? ss name) ∧
    (∀ ss ss', g.Splits fps tokens ss →
      (∀ name, ss.filter (·.field == name) = ss'.filter (·.field == name)) →
      g.parse (Segment.line ss') fps = g.parse tokens fps) ∧
    (∀ f, g.parse tokens fps = .error f ↔
      ∃ ss rest, g.Allows fps ss ∧ Segment.line ss ++ rest = tokens ∧
        g.Offends fps ss rest f) := by
  refine ⟨⟨?reads, ?splits⟩, ?values, ?order, fun f => ⟨?fails, ?offends⟩⟩
  case splits => exact fun ⟨ss, h⟩ => ⟨_, parse_of_splits hg h⟩
  case values =>
    intro ss h
    have hargs := parse_of_splits hg h
    exact ⟨_, hargs, get?_of_splits hg h hargs⟩
  case order =>
    intro ss ss' h hagree
    have h' : g.Splits fps (Segment.line ss') ss' := ⟨h.toAllows.congr hagree, rfl⟩
    rw [parse_of_splits hg h, parse_of_splits hg h']
    simp only [fun name => Segment.lastValue?_congr (hagree name)]
  case offends => exact fun ⟨ss, rest, h, hjoined, hf⟩ => parse_of_offends hg h hjoined hf
  case reads =>
    rintro ⟨args, hargs⟩
    rcases splits_or_offends hg fps tokens with hsplits | ⟨ss, rest, f, h, hjoined, hf⟩
    · exact hsplits
    · cases (parse_of_offends hg h hjoined hf).symm.trans hargs
  case fails =>
    intro herror
    rcases splits_or_offends hg fps tokens with ⟨ss, h⟩ | ⟨ss, rest, f', h, hjoined, hf⟩
    · cases (parse_of_splits hg h).symm.trans herror
    · cases (parse_of_offends hg h hjoined hf).symm.trans herror
      exact ⟨ss, rest, h, hjoined, hf⟩

/-- A text that looks like an option, a bare token, and a number that is given twice. -/
def elementSegments : List Segment :=
  [⟨["-t", "--left"], "text", .text "--left"⟩, ⟨["box"], "target", .text "box"⟩,
   ⟨["-z", "1"], "z_index", .int 1⟩, ⟨["-z", "2"], "z_index", .int 2⟩]

theorem elementSegments_split :
    Elements.changeGrammar.Splits (.int 30) ["-t", "--left", "box", "-z", "1", "-z", "2"]
      elementSegments where
  joined := rfl
  once _ := by decide
  accepted s hs := by
    have hz {raw : String} {v : Value} (hv : Converter.whole raw (.int 30) = .ok v) :
        Elements.changeGrammar.Accepts (.int 30) ⟨["-z", raw], "z_index", v⟩ :=
      .value (o := .taking "z_index" "--z-index" "-z" Converter.whole "10")
        (by simp [Elements.changeGrammar]) (by decide) rfl hv
    rcases (by simpa [elementSegments] using hs : _ ∨ _ ∨ _ ∨ _) with rfl | rfl | rfl | rfl
    · exact .value (o := .taking "text" "--text" "-t" Converter.text "\"Hello World\"")
        (by simp [Elements.changeGrammar, Elements.textOptions]) (by decide) rfl rfl
    · exact .bare (by decide) (by decide +kernel) (by decide)
    · exact hz rfl
    · exact hz rfl

theorem element_line_by_segments :
    Elements.changeGrammar.WellFormed ∧
      ∃ args, Elements.changeGrammar.parse ["-t", "--left", "box", "-z", "1", "-z", "2"]
          (.int 30) = .ok args ∧
        args.get? "text" = some (.text "--left") ∧ args.get? "target" = some (.text "box") ∧
        args.get? "z_index" = some (.int 2) ∧ args.get? "left" = none := by
  have hg : Elements.changeGrammar.WellFormed := by decide +kernel
  obtain ⟨args, hargs, hget⟩ := (parse_by_segments hg _ _).2.1 _ elementSegments_split
  refine ⟨hg, args, hargs, ?_⟩
  simp only [hget]
  exact ⟨rfl, rfl, rfl, rfl⟩

end Grammar

end Montage
