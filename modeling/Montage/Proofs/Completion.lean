/-
# Completion

What was typed finds the names that hold its characters in their order, and no others: the walk
that looks for each character behind the one before it misses no place where they stand
(`Text.scattered_iff`).  Each name found is told once, by what the sort is given:

    rank      0 if the name begins with the query, 1 if it holds it in one place, else 2
    length    of the name
    name      in the order of its code points

The names are sorted first, and then by rank and length alone; the sort is stable, so ties stay in
the order of the names (`pairwise_mergeSort_ties`).

A catalog is what insertions and erasures made of the empty one, and holds under a name the command
of the last change under this name, if that was an insertion (`Catalog.mem_entries_after`).
-/
import Mathlib.Data.List.Nodup
import Mathlib.Data.Prod.Lex
import Mathlib.Data.String.Basic
import Montage.Command.Catalog
import Montage.Proofs.LowerCase
import Montage.Proofs.Stable

namespace Montage

/-! ## Characters in order -/

/-- The walk along a text finds the characters exactly if they stand in it in this order. -/
theorem Text.scattered_iff {needle s : List Char} :
    scattered needle s = true ↔ needle.Sublist s := by
  induction s generalizing needle with
  | nil =>
      cases needle with
      | nil => simp [scattered]
      | cons a n => simp [scattered]
  | cons c r ih =>
      cases needle with
      | nil => simp [scattered]
      | cons a n =>
          unfold scattered
          by_cases h : a = c
          · subst h
            rw [beq_self_eq_true, if_pos rfl, ih, List.cons_sublist_cons]
          · rw [if_neg (by simpa using h), ih]
            refine ⟨fun hsub => hsub.cons c, fun hsub => ?_⟩
            cases hsub with
            | cons _ hsub => exact hsub
            | cons_cons _ _ => exact absurd rfl h

/-! ## What a catalog holds -/

/-- The name of a command, in lower case. -/
def Command.key (c : Command) : String := Text.lower c.name

namespace Catalog

/-- A change of a catalog. -/
inductive Change where
  | insert (command : Command)
  | erase (name : String)

/-- The name under which something changes, in lower case. -/
def Change.key : Change → String
  | insert command => command.key
  | erase name => Text.lower name

/-- The catalog after a change. -/
def change (c : Catalog) : Change → Catalog
  | .insert command => c.insert command
  | .erase name => c.erase name

/-- The catalog after changes of the empty one. -/
def after (changes : List Change) : Catalog := changes.foldl change {}

/-- The last change under the name of the command inserted it. -/
def Registered (changes : List Change) (command : Command) : Prop :=
  ∃ before behind, changes = before ++ .insert command :: behind ∧
    ∀ c ∈ behind, c.key ≠ command.key

/-- Each entry stands under the name of its command, and each name stands once. -/
structure Indexed (c : Catalog) : Prop where
  keyed : ∀ e ∈ c.entries, e.1 = e.2.key
  nodup : (c.entries.map Prod.fst).Nodup

variable {c : Catalog} {command : Command} {changes : List Change} {e : String × Command}
  {key : String} {entries : List (String × Command)}

theorem mem_go (h : (entries.map Prod.fst).Nodup) :
    e ∈ insert.go key command entries ↔ e = (key, command) ∨ e ∈ entries ∧ e.1 ≠ key := by
  induction entries with
  | nil => simp [insert.go]
  | cons f r ih =>
      rw [List.map_cons, List.nodup_cons] at h
      unfold insert.go
      by_cases hf : f.1 = key
      · -- the names behind are other ones
        have hrest : ∀ g ∈ r, g.1 ≠ key := fun g hg hkey =>
          h.1 (hf.trans hkey.symm ▸ List.mem_map_of_mem hg)
        rw [if_pos (beq_iff_eq.mpr hf), List.mem_cons, List.mem_cons]
        constructor
        · rintro (rfl | hmem)
          · exact .inl rfl
          · exact .inr ⟨.inr hmem, hrest e hmem⟩
        · rintro (rfl | ⟨rfl | hmem, hne⟩)
          · exact .inl rfl
          · exact absurd hf hne
          · exact .inr hmem
      · rw [if_neg (by simpa using hf), List.mem_cons, List.mem_cons, ih h.2]
        constructor
        · rintro (rfl | rfl | ⟨hmem, hne⟩)
          · exact .inr ⟨.inl rfl, hf⟩
          · exact .inl rfl
          · exact .inr ⟨.inr hmem, hne⟩
        · rintro (rfl | ⟨rfl | hmem, hne⟩)
          · exact .inr (.inl rfl)
          · exact .inl rfl
          · exact .inr (.inr ⟨hmem, hne⟩)

theorem nodup_go (h : (entries.map Prod.fst).Nodup) :
    ((insert.go key command entries).map Prod.fst).Nodup := by
  induction entries with
  | nil => exact List.nodup_singleton key
  | cons f r ih =>
      rw [List.map_cons, List.nodup_cons] at h
      unfold insert.go
      by_cases hf : f.1 = key
      · rw [if_pos (beq_iff_eq.mpr hf), List.map_cons, List.nodup_cons, ← hf]
        exact h
      · rw [if_neg (by simpa using hf), List.map_cons, List.nodup_cons]
        refine ⟨fun hmem => ?_, ih h.2⟩
        obtain ⟨g, hg, hname⟩ := List.mem_map.mp hmem
        rcases (mem_go h.2).mp hg with rfl | ⟨hg, -⟩
        · exact hf hname.symm
        · exact h.1 (hname ▸ List.mem_map_of_mem hg)

theorem Indexed.change (h : c.Indexed) (d : Change) : (c.change d).Indexed := by
  cases d with
  | insert command =>
      refine ⟨fun e he => ?_, nodup_go h.nodup⟩
      rcases (mem_go h.nodup).mp he with rfl | ⟨he, -⟩
      · rfl
      · exact h.keyed e he
  | erase name =>
      exact ⟨fun e he => h.keyed e (List.mem_filter.mp he).1,
        h.nodup.sublist (List.filter_sublist.map _)⟩

theorem mem_entries_change (h : c.Indexed) {d : Change} :
    e ∈ (c.change d).entries ↔
      (d = .insert e.2 ∧ e.1 = e.2.key) ∨ (e ∈ c.entries ∧ d.key ≠ e.2.key) := by
  cases d with
  | insert command =>
      have hmem : e ∈ (c.insert command).entries ↔ _ := mem_go h.nodup
      rw [Catalog.change, hmem]
      constructor
      · rintro (rfl | ⟨he, hne⟩)
        · exact .inl ⟨rfl, rfl⟩
        · exact .inr ⟨he, fun hkey => hne ((h.keyed e he).trans hkey.symm)⟩
      · rintro (⟨hinsert, hkey⟩ | ⟨he, hne⟩)
        · cases hinsert
          exact .inl (Prod.ext hkey rfl)
        · exact .inr ⟨he, fun hname => hne (hname.symm.trans (h.keyed e he))⟩
  | erase name =>
      rw [Catalog.change, erase, List.mem_filter, bne_iff_ne]
      constructor
      · rintro ⟨he, hne⟩
        exact .inr ⟨he, fun hkey => hne ((h.keyed e he).trans hkey.symm)⟩
      · rintro (⟨hinsert, -⟩ | ⟨he, hne⟩)
        · cases hinsert
        · exact ⟨he, fun hname => hne (hname.symm.trans (h.keyed e he))⟩

theorem after_append (changes : List Change) (d : Change) :
    after (changes ++ [d]) = (after changes).change d := by
  unfold after
  rw [List.foldl_append]
  rfl

theorem indexed_after (changes : List Change) : (after changes).Indexed := by
  induction changes using List.reverseRecOn with
  | nil => exact ⟨nofun, List.nodup_nil⟩
  | append_singleton changes d ih =>
      rw [after_append]
      exact ih.change d

theorem registered_append {d : Change} : Registered (changes ++ [d]) command ↔
    d = .insert command ∨ (Registered changes command ∧ d.key ≠ command.key) := by
  constructor
  · rintro ⟨before, behind, hchanges, hlast⟩
    rcases List.eq_nil_or_concat' behind with rfl | ⟨behind, last, rfl⟩
    · exact .inl (List.append_inj_right' hchanges rfl |> List.singleton_inj.mp)
    · rw [← List.cons_append, ← List.append_assoc] at hchanges
      obtain ⟨hbefore, hsingle⟩ := List.append_inj' hchanges rfl
      obtain rfl := List.singleton_inj.mp hsingle
      refine .inr ⟨⟨before, behind, hbefore, fun c hc => hlast c ?_⟩, hlast d ?_⟩
      · exact List.mem_append_left _ hc
      · exact List.mem_append_right _ List.mem_cons_self
  · rintro (rfl | ⟨⟨before, behind, rfl, hlast⟩, hne⟩)
    · exact ⟨changes, [], rfl, nofun⟩
    · refine ⟨before, behind ++ [d], by simp, fun c hc => ?_⟩
      rcases List.mem_append.mp hc with hc | hc
      · exact hlast c hc
      · rwa [List.mem_singleton.mp hc]

/-- A catalog holds the commands that the last change under their name inserted. -/
theorem mem_entries_after :
    e ∈ (after changes).entries ↔ e.1 = e.2.key ∧ Registered changes e.2 := by
  induction changes using List.reverseRecOn with
  | nil =>
      refine ⟨nofun, ?_⟩
      rintro ⟨-, before, behind, hnil, -⟩
      cases List.nil_eq_append_iff.mp hnil |>.2
  | append_singleton changes d ih =>
      rw [after_append, mem_entries_change (indexed_after changes), registered_append, ih]
      tauto

/-! ## What a query finds -/

/-- How well a name answers a query. -/
def rankOf (q name : List Char) : Nat :=
  if q <+: name then 0 else if q <:+: name then 1 else 2

/-- What the answers to a query are sorted by. -/
def sortKey (q : List Char) (command : Command) : ℕ ×ₗ ℕ ×ₗ String :=
  toLex (rankOf q command.key.toList, toLex (command.key.length, command.key))

variable {q : List Char}

theorem rank?_eq (q name : List Char) :
    rank? q name = if q.Sublist name then some (rankOf q name) else none := by
  unfold rank? rankOf
  simp only [List.isPrefixOf_iff_prefix, Text.occursIn_iff, Text.scattered_iff]
  by_cases hfront : q <+: name
  · simp [hfront, hfront.sublist]
  · by_cases hwithin : q <:+: name
    · simp [hfront, hwithin, hwithin.sublist]
    · simp [hfront, hwithin]

theorem rank?_eq_some {r : Nat} {name : List Char} :
    rank? q name = some r ↔ q.Sublist name ∧ r = rankOf q name := by
  rw [rank?_eq]
  split
  · rename_i h
    simp [h, eq_comm]
  · rename_i h
    simp [h]

theorem pairwise_sorted (h : c.Indexed) : c.sorted.Pairwise fun a b => a.1 < b.1 := by
  have htrans (a b d : String × Command) (hab : decide (a.1 ≤ b.1) = true)
      (hbd : decide (b.1 ≤ d.1) = true) : decide (a.1 ≤ d.1) = true := by
    rw [decide_eq_true_iff] at *
    exact hab.trans hbd
  have htotal (a b : String × Command) : (decide (a.1 ≤ b.1) || decide (b.1 ≤ a.1)) = true := by
    rw [Bool.or_eq_true, decide_eq_true_iff, decide_eq_true_iff]
    exact le_total a.1 b.1
  have hperm := (c.entries.mergeSort_perm fun a b => decide (a.1 ≤ b.1)).map Prod.fst
  have hne : c.sorted.Pairwise fun a b => a.1 ≠ b.1 :=
    List.pairwise_map.mp (hperm.nodup_iff.mpr h.nodup)
  refine (List.pairwise_mergeSort htrans htotal c.entries).imp₂ (fun a b hle hne => ?_) hne
  exact lt_of_le_of_ne (of_decide_eq_true hle) hne

theorem ranksBefore_iff {a b : (Nat × Nat) × Command} :
    ranksBefore a b = true ↔ toLex a.1 ≤ toLex b.1 := by
  rw [ranksBefore, Prod.Lex.toLex_le_toLex]
  simp

/-- What is sorted for a query: each command found, with the rank and the length of its name. -/
def found (c : Catalog) (q : List Char) : List ((Nat × Nat) × Command) :=
  c.sorted.filterMap fun e => (rank? q e.1.toList).map fun r => ((r, e.1.length), e.2)

theorem ranked_eq (c : Catalog) (q : List Char) :
    c.ranked q = ((c.found q).mergeSort ranksBefore).map (·.2) := rfl

theorem mem_sorted : e ∈ c.sorted ↔ e ∈ c.entries := List.mem_mergeSort

theorem mem_found (h : c.Indexed) {x : (Nat × Nat) × Command} : x ∈ c.found q ↔
    x.1 = (rankOf q x.2.key.toList, x.2.key.length) ∧ (x.2.key, x.2) ∈ c.entries ∧
      q.Sublist x.2.key.toList := by
  obtain ⟨rank, command⟩ := x
  simp only [found, List.mem_filterMap, Option.map_eq_some_iff, rank?_eq_some, mem_sorted]
  constructor
  · rintro ⟨⟨name, found⟩, he, r, ⟨hsub, rfl⟩, heq⟩
    obtain rfl : name = found.key := h.keyed _ he
    cases heq
    exact ⟨rfl, he, hsub⟩
  · rintro ⟨rfl, he, hsub⟩
    exact ⟨_, he, _, ⟨hsub, rfl⟩, rfl⟩

theorem pairwise_found (h : c.Indexed) (q : List Char) :
    (c.found q).Pairwise fun a b => a.2.key < b.2.key := by
  refine List.pairwise_filterMap.mpr ((pairwise_sorted h).imp_of_mem fun ha hb hlt => ?_)
  rw [h.keyed _ (mem_sorted.mp ha), h.keyed _ (mem_sorted.mp hb)] at hlt
  intro x hx y hy
  obtain ⟨r, -, rfl⟩ := Option.map_eq_some_iff.mp hx
  obtain ⟨s, -, rfl⟩ := Option.map_eq_some_iff.mp hy
  exact hlt

/-- The commands that a query finds, each once and in the order of the answers. -/
theorem pairwise_ranked (h : c.Indexed) (q : List Char) :
    (c.ranked q).Pairwise fun a b => sortKey q a < sortKey q b := by
  have htrans (a b d : (Nat × Nat) × Command) (hab : ranksBefore a b = true)
      (hbd : ranksBefore b d = true) : ranksBefore a d = true := by
    rw [ranksBefore_iff] at *
    exact hab.trans hbd
  have htotal (a b : (Nat × Nat) × Command) : (ranksBefore a b || ranksBefore b a) = true := by
    rw [Bool.or_eq_true, ranksBefore_iff, ranksBefore_iff]
    exact le_total (toLex a.1) (toLex b.1)
  have hfound : ∀ x ∈ (c.found q).mergeSort ranksBefore,
      x.1 = (rankOf q x.2.key.toList, x.2.key.length) :=
    fun x hx => ((mem_found h).mp (List.mem_mergeSort.mp hx)).1
  rw [ranked_eq, List.pairwise_map]
  refine (pairwise_mergeSort_ties htrans htotal (pairwise_found h q)).imp_of_mem ?_
  rintro a b ha hb ⟨hle, hties⟩
  rw [ranksBefore_iff, hfound a ha, hfound b hb] at hle
  rw [ranksBefore_iff, hfound a ha, hfound b hb] at hties
  unfold sortKey
  simp only [Prod.Lex.toLex_lt_toLex, Prod.Lex.toLex_le_toLex] at hle hties ⊢
  rcases hle with hlt | ⟨hrank, hle⟩
  · exact .inl hlt
  · refine .inr ⟨hrank, ?_⟩
    rcases hle.lt_or_eq with hlt | hlength
    · exact .inl hlt
    · exact .inr ⟨hlength, hties (.inr ⟨hrank.symm, hlength.ge⟩)⟩

theorem mem_ranked (h : c.Indexed) :
    command ∈ c.ranked q ↔ (command.key, command) ∈ c.entries ∧ q.Sublist command.key.toList := by
  rw [ranked_eq, List.mem_map]
  simp only [List.mem_mergeSort, mem_found h]
  constructor
  · rintro ⟨x, ⟨-, hx⟩, rfl⟩
    exact hx
  · exact fun hx => ⟨((rankOf q command.key.toList, command.key.length), command), ⟨rfl, hx⟩, rfl⟩

theorem complete_eq {typed : String} (hq : query typed ≠ []) (limit : Option Int) :
    c.complete typed limit = takeUpTo limit (c.ranked (query typed)) := by
  have hempty : (query typed).isEmpty = false := List.isEmpty_eq_false_iff.mpr hq
  unfold complete
  dsimp only
  rw [hempty, if_neg Bool.false_ne_true]

/-- Completion after any insertions and erasures, for what holds more than slashes.  One list, of
which it answers the first commands up to the limit, has each registered command whose name holds
the query in its order, each name once and no other command; it is in the order of ranks, of
lengths, and of names.  A query that holds this one in its order finds no further command. -/
theorem complete_ranks (changes : List Change) {typed : String} (hq : query typed ≠ []) :
    ∃ listed : List Command,
      (∀ command, command ∈ listed ↔
        Registered changes command ∧ (query typed).Sublist command.key.toList) ∧
      listed.Pairwise (fun a b => sortKey (query typed) a < sortKey (query typed) b) ∧
      (listed.map Command.key).Nodup ∧
      (∀ limit : Nat, (after changes).complete typed (some limit) = listed.take limit) ∧
      (after changes).complete typed none = listed ∧
      ∀ typed', (query typed).Sublist (query typed') →
        ∀ command ∈ (after changes).complete typed' none, command ∈ listed := by
  have hindexed := indexed_after changes
  have hmem (q : List Char) (command : Command) : command ∈ (after changes).ranked q ↔
      Registered changes command ∧ q.Sublist command.key.toList := by
    rw [mem_ranked hindexed, mem_entries_after]
    simp only [true_and]
  have hsorted := pairwise_ranked hindexed (query typed)
  refine ⟨_, hmem (query typed), hsorted, ?nodup, fun limit => ?limit, ?all, ?extended⟩
  case nodup =>
    refine List.pairwise_map.mpr (hsorted.imp fun hlt hkey => hlt.ne ?_)
    unfold sortKey
    rw [hkey]
  case limit =>
    rw [complete_eq hq, takeUpTo, if_neg (by omega), Int.toNat_natCast]
  case all => rw [complete_eq hq, takeUpTo]
  case extended =>
    intro typed' hsub command hcommand
    have hq' : query typed' ≠ [] := fun hnil => hq (List.sublist_nil.mp (hnil ▸ hsub))
    rw [complete_eq hq', takeUpTo] at hcommand
    obtain ⟨hregistered, hheld⟩ := (hmem (query typed') command).mp hcommand
    exact (hmem (query typed) command).mpr ⟨hregistered, hsub.trans hheld⟩

/-- A command that does nothing. -/
def idle (name : String) : Command where
  name
  description := ""
  usage := ""
  handler := fun _ => return .info "" name ""

/-- Insertions under three names, one of them taken back. -/
def trials : List Change :=
  [.insert (idle "Set-Audio"), .insert (idle "sandbox"), .insert (idle "Save")] ++
    [.erase "SANDBOX"]

/-- A name that begins with the query is told before one that only holds its characters, and one
that was taken back is not told. -/
theorem trials_ranked :
    query "//SA" ≠ [] ∧ ∃ listed : List Command,
      idle "Save" ∈ listed ∧ idle "Set-Audio" ∈ listed ∧ idle "sandbox" ∉ listed ∧
      sortKey (query "//SA") (idle "Save") < sortKey (query "//SA") (idle "Set-Audio") ∧
      listed.Pairwise (fun a b => sortKey (query "//SA") a < sortKey (query "//SA") b) ∧
      (after trials).complete "//SA" (some 1) = listed.take 1 ∧
      ∀ command ∈ (after trials).complete "s-a" none, command ∈ listed := by
  have hq : query "//SA" ≠ [] := by decide +kernel
  obtain ⟨listed, hmem, hsorted, -, hlimit, -, hextended⟩ := complete_ranks trials hq
  refine ⟨hq, listed, ?save, ?setAudio, ?sandbox, by decide +kernel, hsorted, hlimit 1,
    hextended "s-a" (by decide +kernel)⟩
  case save =>
    exact (hmem _).mpr ⟨⟨[.insert (idle "Set-Audio"), .insert (idle "sandbox")],
      [.erase "SANDBOX"], rfl, by decide +kernel⟩, by decide +kernel⟩
  case setAudio =>
    exact (hmem _).mpr ⟨⟨[], _, rfl, by decide +kernel⟩, by decide +kernel⟩
  case sandbox =>
    intro hlisted
    rcases registered_append.mp ((hmem _).mp hlisted).1 with herase | ⟨-, hne⟩
    · cases herase
    · exact hne (by decide +kernel)

end Catalog

end Montage
