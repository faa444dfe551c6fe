/-
# The list of notes

`/ls-notes` keeps the notes that a query matches, puts them in order of time, and shows each
with its time and its text.  None of these steps fails for notes with a text and with a whole
number of frames that is not beyond reason:

    keep      the text is put in lower case, and so is the query
    sort      times are compared, and notes of one time stay in the order of the document
    show      a number of frames is divided by the frame rate, which is never zero

So what is kept is listed, in order and completely (`Session.answer_lists`).  But not every note
whose text holds the query is kept: case is ignored by comparing lower case, and the lower case of
a text need not hold that of a part of it.  `ΑΣΑ` holds `ΑΣ`, and is not listed for it.
-/
import Montage.Proofs.LowerCase
import Montage.Proofs.Overlong
import Montage.Proofs.Stable

namespace Montage

open Binary64 (one greatest one_le_greatest)

/-! ## Frames that have a text -/

/-- Two integers have a quotient, unless it is beyond the range of floats. -/
theorem Number.exists_int_div {a b : Int} (hb : b ≠ 0)
    (h : a.natAbs * one ≤ greatest * b.natAbs) :
    ∃ x, (int a).div (.int b) = .ok x ∧ x.isFinite = true := by
  have hfinite := (Binary64.round_within (decide (a < 0) != decide (b < 0)) Binary64.form_greatest
    (Int.natAbs_pos.mpr hb) h).1
  exact ⟨_, int_div_int hb hfinite, hfinite⟩

namespace Duration

/-- A finite number has a nearest integer, and this has a tenth. -/
theorem exists_tenths {x : Binary64} (hx : x.isFinite = true) :
    ∃ n y, roundHalfUp (.float x) = .ok n ∧ (Number.int n).div (.int 10) = .ok y := by
  have hsum := Binary64.isFinite_add_half hx
  obtain ⟨n, hn⟩ : ∃ n, (x.add half).floor? = some n := ⟨_, if_pos hsum⟩
  have hrounds : roundHalfUp (.float x) = .ok n := by
    show Number.floor (x.add half) = .ok n
    unfold Number.floor Number.integerPart
    rw [hn]
  have hle : n.natAbs * one ≤ greatest * (10 : Int).natAbs := by
    rw [show (10 : Int).natAbs = 10 from rfl]
    have hfloor := Binary64.natAbs_mul_one_le_of_floor hn
    have hunits := Binary64.units_le_greatest hsum
    have hone := one_le_greatest
    omega
  obtain ⟨y, hy, -⟩ := Number.exists_int_div (by decide : (10 : Int) ≠ 0) hle
  exact ⟨n, y, hrounds, hy⟩

/-- Frames have a text at any rate, if ten times as many are in the range of floats. -/
theorem exists_textAt {n fps : Int} (hfps : fps ≠ 0) (h : (n * 10).natAbs * one ≤ greatest) :
    ∃ s, textAt fps (.int n) = .ok s := by
  have hrate : 1 ≤ fps.natAbs := Int.natAbs_pos.mpr hfps
  have hminute : fps * 60 ≠ 0 := by omega
  have hten : (n * 10).natAbs * one ≤ greatest * fps.natAbs :=
    h.trans (Nat.le_mul_of_pos_right _ hrate)
  have hone : n.natAbs * one ≤ greatest * fps.natAbs :=
    (Nat.mul_le_mul_right one (by omega)).trans hten
  obtain ⟨seconds, hseconds, -⟩ := Number.exists_int_div hfps hone
  obtain ⟨tenfold, htenfold, hfinite⟩ := Number.exists_int_div hfps hten
  obtain ⟨tenths, y, htenths, hy⟩ := exists_tenths hfinite
  have htext : tenthsText (.int n) (.int fps) = .ok (y.fixedText 1 ++ "s") := by
    have hmul : (Number.int n).mul (.int 10) = .ok (.int (n * 10)) := rfl
    rw [tenthsText, hmul, ok_bind, htenfold, ok_bind, htenths, ok_bind, hy, ok_bind]
    exact pure_eq_ok.mpr rfl
  have hmod {b : Int} (hb : b ≠ 0) : (Number.int n).mod (.int b) = .ok (.int (n.fmod b)) :=
    if_neg hb
  have hdiv {b : Int} (hb : b ≠ 0) : (Number.int n).floorDiv (.int b) = .ok (.int (n.fdiv b)) :=
    if_neg hb
  have hnumber : (Value.int n).toNumber = .ok (.int n) := rfl
  have hmul : (Number.int fps).mul (.int 60) = .ok (.int (fps * 60)) := rfl
  unfold textAt text
  simp only [hnumber, hmul, hseconds, hmod hfps, hmod hminute, hdiv hfps, hdiv hminute, htext,
    ok_bind]
  split_ifs <;> exact ⟨_, rfl⟩

end Duration

/-- No frame rate is zero. -/
theorem Project.fps_ne_zero (p : Project) : p.fps ≠ 0 := by
  unfold fps
  split
  · decide
  · split
    · decide
    · assumption

/-! ## Notes by time -/

namespace Notes

/-- The text of the note is a text, and its time a number of frames up to `10 ^ 15`. -/
def Legible (note : Note) : Prop :=
  ∃ s t, note.text = .text s ∧ note.time = .int t ∧ 0 ≤ t ∧ t ≤ 10 ^ 15

/-- The frame at which a note stands. -/
def frame (note : Note) : Int :=
  match note.time with
  | .int t => t
  | _ => 0

/-- Whether a note is to be listed: without a query, or if its text holds the query, both in lower
case. -/
def chosen (query : Option String) (note : Note) : Bool :=
  match query, note.text with
  | none, _ => true
  | some q, .text s => Text.contains (Text.lower s) (Text.lower q)
  | some _, _ => false

/-- The same notes in ascending order of time, those of one time in the order they had. -/
structure InOrder (notes listed : List Note) : Prop where
  perm : listed.Perm notes
  ascending : listed.Pairwise (frame · ≤ frame ·)
  ties : ∀ t, listed.filter (frame · = t) = notes.filter (frame · = t)

/-- The title of a list. -/
def title (query : Option String) : String :=
  match query with
  | some q => "Notes matching '" ++ q ++ "'"
  | none => "Notes"

/-- The answer that shows these notes. -/
inductive Shows (fps : Int) (query : Option String) : List Note → Outcome → Prop
  | empty : Shows fps query [] (noneListed query)
  | list {listed : List Note} {lines : List String} : listed ≠ [] →
      listed.mapM (listLine fps) = .ok lines →
      Shows fps query listed (.info "📝" (title query)
        (Markup.plural listed.length "note" ++ ":\n\n" ++ Markup.bulletList lines)
        (.list (listed.map Document.ofNote)))

variable {p : Project} {ctx : Context} {args : Arguments} {query : Option String}
  {notes listed : List Note} {note : Note} {o : Outcome} {fps : Int}

theorem Shows.success (h : Shows fps query listed o) : o.success = true := by
  cases h <;> rfl

theorem Shows.revised (h : Shows fps query listed o) : o.revised = none := by
  cases h <;> rfl

theorem Shows.data (h : Shows fps query listed o) :
    o.data = .list (listed.map Document.ofNote) := by
  cases h <;> rfl

theorem Legible.exists_listLine (h : Legible note) (hfps : fps ≠ 0) :
    ∃ line, listLine fps note = .ok line := by
  obtain ⟨s, t, -, ht, hlow, hhigh⟩ := h
  have hrange : (t * 10).natAbs * one ≤ greatest := by
    have htop : 10 ^ 16 * one ≤ greatest := by decide +kernel
    exact (Nat.mul_le_mul_right one (by omega)).trans htop
  obtain ⟨text, htext⟩ := Duration.exists_textAt hfps hrange
  unfold listLine
  rw [ht, htext]
  exact ⟨_, rfl⟩

theorem filter_chosen_none (notes : List Note) : notes.filter (chosen none) = notes :=
  List.filter_eq_self.mpr fun _ _ => rfl

/-- A query keeps the notes that it matches. -/
theorem matching_eq (h : ∀ note ∈ notes, Legible note) (query : Option String) :
    matching query notes = .ok (notes.filter (chosen query)) := by
  cases query with
  | none => rw [matching, filter_chosen_none]
  | some q =>
      refine filterM_eq_ok fun note hnote => ?_
      obtain ⟨s, t, hs, -⟩ := h note hnote
      unfold mentions chosen
      rw [hs]

/-- Whether the first note stands no later than the second. -/
abbrev before (a b : Note) : Bool := frame a ≤ frame b

theorem byTime_eq (h : ∀ note ∈ notes, Legible note) :
    byTime notes = .ok (notes.mergeSort before) := by
  have htimed : (notes.mapM fun n => do return (← n.time.toNumber, n)) =
      (.ok (notes.map fun n => (.int (frame n), n)) : Except Fault _) := by
    rw [mapM_eq_ok, List.forall₂_map_right_iff, List.forall₂_same]
    intro n hn
    obtain ⟨s, t, -, ht, -⟩ := h n hn
    unfold frame
    rw [ht]
    rfl
  rw [byTime, htimed, ok_bind, ← List.map_mergeSort (r := before), List.map_map]
  · exact congrArg Except.ok (List.map_id _)
  · intro a _ b _
    exact Bool.eq_iff_iff.mpr (decide_eq_true_iff.trans Number.int_le.symm)

theorem before_trans (a b c : Note) (hab : before a b = true) (hbc : before b c = true) :
    before a c = true := by
  rw [decide_eq_true_iff] at *
  exact hab.trans hbc

theorem before_total (a b : Note) : (before a b || before b a) = true := by
  simpa using Int.le_total (frame a) (frame b)

/-- Sorting does not touch the order of notes of one time. -/
theorem inOrder_mergeSort (notes : List Note) : InOrder notes (notes.mergeSort before) := by
  refine ⟨List.mergeSort_perm notes before, ?ascending, fun t => ?ties⟩
  case ascending =>
    exact (List.pairwise_mergeSort before_trans before_total notes).imp of_decide_eq_true
  case ties =>
    -- notes of one time are in order as they stand
    refine filter_mergeSort before_trans before_total ?_
    refine List.pairwise_of_forall_mem_list fun a ha b hb => ?_
    have ha := of_decide_eq_true (List.mem_filter.mp ha).2
    have hb := of_decide_eq_true (List.mem_filter.mp hb).2
    exact decide_eq_true (ha.trans hb.symm).le

/-- Notes that can be listed are listed. -/
theorem exists_list_eq_ok (hp : ctx.project = some p) (hnotes : ∀ note ∈ p.notes, Legible note)
    (hargs : listGrammar.parse ctx.args (.int p.fps) = .ok args) :
    ∃ listed o, list ctx = .ok o ∧ Shows p.fps (args.nonempty? "query") listed o ∧
      InOrder (p.notes.filter (chosen (args.nonempty? "query"))) listed := by
  generalize hquery : args.nonempty? "query" = query
  have hchosen : ∀ note ∈ p.notes.filter (chosen query), Legible note :=
    fun note hnote => hnotes note (List.mem_filter.mp hnote).1
  have hsorted := inOrder_mergeSort (p.notes.filter (chosen query))
  unfold list
  rw [hp, requireProject, ok_bind, Context.parse_of_project hp, hargs, ok_bind, hquery]
  dsimp only
  rw [matching_eq hnotes, ok_bind, byTime_eq hchosen, ok_bind]
  generalize (p.notes.filter (chosen query)).mergeSort before = listed at hsorted
  cases listed with
  | nil => exact ⟨[], _, rfl, .empty, hsorted⟩
  | cons first rest =>
      have hlegible : ∀ note ∈ first :: rest, Legible note :=
        fun note hnote => hchosen note (hsorted.perm.subset hnote)
      obtain ⟨lines, hlines⟩ := exists_mapM fun note hnote =>
        (hlegible note hnote).exists_listLine p.fps_ne_zero
      rw [List.isEmpty_cons, if_neg Bool.false_ne_true, hlines, ok_bind]
      exact ⟨first :: rest, _, rfl, .list (List.cons_ne_nil _ _) hlines, hsorted⟩

end Notes

/-! ## Lines -/

namespace Session

open Notes (Legible Shows InOrder chosen)

/-- A line that lists legible notes succeeds and leaves the project alone.  It shows and answers the
notes that the query matches, each as often as it is in the document, in ascending order of time,
with those of one time in the order of the document; without a query these are all notes.  A note
whose text holds the query is among them, if each `Σ` of the query ends a word in the query exactly
if it does in the text. -/
theorem answer_lists {p : Project} (hnotes : ∀ note ∈ p.notes, Legible note) (ids : IdSource)
    (collaborators : Collaborators) {line : String} {tokens : List String}
    (hcalls : Calls line Builtin.notes[3] tokens) {args : Arguments}
    (hargs : Notes.listGrammar.parse tokens (.int p.fps) = .ok args) (j : Journal) :
    ∃ listed,
      Shows p.fps (args.nonempty? "query") listed (answer ids collaborators (some p) line j) ∧
      (answer ids collaborators (some p) line j).success = true ∧
      (answer ids collaborators (some p) line j).revised = none ∧
      (answer ids collaborators (some p) line j).data = .list (listed.map Document.ofNote) ∧
      InOrder (p.notes.filter (chosen (args.nonempty? "query"))) listed ∧
      (args.nonempty? "query" = none → InOrder p.notes listed) ∧
      ∀ q, args.nonempty? "query" = some q → ∀ note ∈ p.notes, ∀ s front back,
        note.text = .text s → s.toList = front ++ (q.toList ++ back) →
        ('Σ' ∈ q.toList → Text.SigmasAgree front q.toList back) → note ∈ listed := by
  have hallowed : Builtin.notes[3].Allowed (context ids collaborators (some p) tokens) :=
    fun hreq => by cases hreq
  have hp : (context ids collaborators (some p) tokens).project = some p := rfl
  obtain ⟨listed, o, ho, hshows, hordered⟩ := Notes.exists_list_eq_ok hp hnotes hargs
  have hanswer : answer ids collaborators (some p) line j = o := by
    rw [answer_of_allowed hcalls hallowed rfl, ho]
  rw [hanswer]
  refine ⟨listed, hshows, hshows.success, hshows.revised, hshows.data, hordered, ?all, ?held⟩
  case all =>
    intro hnone
    rwa [hnone, Notes.filter_chosen_none] at hordered
  case held =>
    intro q hq note hnote s front back hs hheld hsigmas
    have hagree : Text.SigmasAgree front q.toList back := by
      by_cases hmem : 'Σ' ∈ q.toList
      · exact hsigmas hmem
      · exact Text.sigmasAgree_of_not_mem hmem
    refine hordered.perm.mem_iff.mpr (List.mem_filter.mpr ⟨hnote, ?_⟩)
    unfold chosen
    rw [hq, hs]
    exact Text.contains_lower hheld hagree

/-- A project with a note of this text. -/
def noted (s : String) : Project where
  id := "project"
  name := .text "Noted"
  composition := some {}
  notes := [{ id := .text "n", time := .int 0, text := .text s }]

theorem noted_legible (s : String) : ∀ note ∈ (noted s).notes, Legible note := by
  intro note hnote
  obtain rfl := List.mem_singleton.mp hnote
  exact ⟨s, 0, rfl, rfl, by decide, by decide⟩

theorem calls_list_sigma :
    Calls "/ls-notes --query ΑΣ" Builtin.notes[3] ["--query", "ΑΣ"] :=
  ⟨"ls-notes", by decide +kernel, rfl⟩

/-- A word that ends in the query as it ends in the text is found. -/
theorem word_is_found :
    let o := answer .counting {} (some (noted "ΑΣ Α")) "/ls-notes --query ΑΣ" {}
    (∀ note ∈ (noted "ΑΣ Α").notes, Legible note) ∧ o.success = true ∧
      ∃ listed : List Note, o.data = .list (listed.map Document.ofNote) ∧
        ∀ note ∈ (noted "ΑΣ Α").notes, note ∈ listed := by
  intro o
  have hargs : Notes.listGrammar.parse ["--query", "ΑΣ"] (.int (noted "ΑΣ Α").fps) =
      .ok [("query", .text "ΑΣ")] := rfl
  obtain ⟨listed, -, hsuccess, -, hdata, -, -, hheld⟩ := answer_lists (noted_legible "ΑΣ Α")
    .counting {} calls_list_sigma hargs {}
  refine ⟨noted_legible _, hsuccess, listed, hdata, fun note hnote => ?_⟩
  obtain rfl := List.mem_singleton.mp hnote
  have hagree : Text.SigmasAgree [] "ΑΣ".toList [' ', 'Α'] :=
    Text.sigmasAgree_of_words (by decide +kernel) (by decide +kernel)
  exact hheld "ΑΣ" rfl _ hnote "ΑΣ Α" [] [' ', 'Α'] rfl rfl fun _ => hagree

/-- A text is not found by its own first letters. -/
theorem beginning_is_not_found :
    let o := answer .counting {} (some (noted "ΑΣΑ")) "/ls-notes --query ΑΣ" {}
    (∀ note ∈ (noted "ΑΣΑ").notes, Legible note) ∧
      Calls "/ls-notes --query ΑΣ" Builtin.notes[3] ["--query", "ΑΣ"] ∧
      "ΑΣΑ".toList = "ΑΣ".toList ++ "Α".toList ∧ o.success = true ∧
      o.message = "📝 **Notes**\n\nNo notes match 'ΑΣ'." := by
  refine ⟨noted_legible _, calls_list_sigma, rfl, ?_, ?_⟩
  all_goals decide +kernel

end Session

end Montage
