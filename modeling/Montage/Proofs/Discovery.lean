/-
# Project files listed and opened

Project files are listed by the end of their names, and opened by what they are: a file of a
bearable size whose suffix is `.json` in either case.  The two do not agree on

    listed, not opened     a directory with a name that ends in `.json`
                           a file named `.json`, for it has no suffix
                           a file whose path is longer than the system takes
    opened, not listed     a file whose suffix has a capital, as in `a.JSON`

and they agree on all else (`projectFiles_agree`): `Unopened` and `Unlisted` say exactly where a
path of a tree is on one side only.  A path stands in the list once, and a file that was opened by
another text, relative or with dots in it, can be opened by the text of its path.
-/
import Montage.Proofs.Host
import Montage.Proofs.Paths

namespace Montage

namespace FileSystem

variable {fs : FileSystem} {p q here : Path} {n : Node} {name : String} {names rest : List String}

/-! ## Trees -/

/-- What stands below the root stands there once, under names that a directory can hold, and in a
directory. -/
structure Tree (fs : FileSystem) : Prop where
  distinct : (fs.entries.map Prod.fst).Nodup
  named : ∀ e ∈ fs.entries, e.1.Named
  belowRoot : ∀ e ∈ fs.entries, e.1.names ≠ []
  inDirectory : ∀ e ∈ fs.entries, fs.node? e.1.parent = some .directory

instance : Decidable fs.Tree :=
  decidable_of_iff
    ((fs.entries.map Prod.fst).Nodup ∧ (∀ e ∈ fs.entries, e.1.Named) ∧
      (∀ e ∈ fs.entries, e.1.names ≠ []) ∧ ∀ e ∈ fs.entries, fs.node? e.1.parent = some .directory)
    ⟨fun ⟨hd, hn, hr, hp⟩ => ⟨hd, hn, hr, hp⟩, fun ⟨hd, hn, hr, hp⟩ => ⟨hd, hn, hr, hp⟩⟩

theorem mem_of_node? (h : fs.node? p = some n) (hp : p.names ≠ []) : (p, n) ∈ fs.entries := by
  unfold node? at h
  rw [if_neg (by simpa using hp)] at h
  obtain ⟨before, after, hentries, -⟩ := List.lookup_eq_some_iff.mp h
  rw [hentries]
  exact List.mem_append_right _ List.mem_cons_self

theorem node?_isSome_iff (hp : p.names ≠ []) :
    (fs.node? p).isSome = true ↔ p ∈ fs.entries.map Prod.fst := by
  constructor
  · intro h
    obtain ⟨n, hn⟩ := Option.isSome_iff_exists.mp h
    exact List.mem_map_of_mem (mem_of_node? hn hp)
  · intro h
    obtain ⟨e, he, rfl⟩ := List.mem_map.mp h
    unfold node?
    rw [if_neg (by simpa using hp), Option.isSome_iff_ne_none, ne_eq, List.lookup_eq_none_iff]
    exact fun hnone => absurd (hnone e he) (by simp)

namespace Tree

theorem named_of_node? (ht : fs.Tree) (h : fs.node? p = some n) : p.Named := by
  by_cases hp : p.names = []
  · intro name hname
    rw [hp] at hname
    cases hname
  · exact ht.named _ (mem_of_node? h hp)

/-- What is somewhere is in a directory. -/
theorem directory_of_prefix (ht : fs.Tree)
    (h : (fs.node? ⟨names ++ name :: rest⟩).isSome = true) :
    fs.node? ⟨names⟩ = some .directory := by
  induction rest using List.reverseRecOn with
  | nil =>
      obtain ⟨n, hn⟩ := Option.isSome_iff_exists.mp h
      have hparent := ht.inDirectory _ (mem_of_node? hn (by simp))
      simpa [Path.parent] using hparent
  | append_singleton rest last ih =>
      obtain ⟨n, hn⟩ := Option.isSome_iff_exists.mp h
      have hparent := ht.inDirectory _ (mem_of_node? hn (by simp))
      have hnames : names ++ name :: (rest ++ [last]) = names ++ name :: rest ++ [last] := by simp
      rw [hnames, Path.parent, List.dropLast_concat] at hparent
      exact ih (by rw [hparent]; rfl)

/-- In a tree names lead to what stands at their path. -/
theorem walk_eq (ht : fs.Tree) (hnames : ∀ n ∈ names, Path.IsName n) (here : List String) :
    fs.walk ⟨here⟩ names =
      .ok ((fs.node? ⟨here ++ names⟩).map fun n => (⟨here ++ names⟩, n)) := by
  induction names generalizing here with
  | nil => rw [walk, List.append_nil]
  | cons name rest ih =>
      obtain ⟨hname, hrest⟩ := List.forall_mem_cons.mp hnames
      rw [walk]
      split
      · have hstep := ih hrest (here ++ [name])
        rw [List.append_assoc, List.singleton_append] at hstep
        rw [if_neg (by simpa using hname.ne_dots), if_neg (Nat.not_lt.mpr hname.short)]
        exact hstep
      · rename_i hnone
        -- nothing is in what is no directory
        have hnothing : fs.node? ⟨here ++ name :: rest⟩ = none := by
          rw [← Option.not_isSome_iff_eq_none]
          exact fun h => hnone (ht.directory_of_prefix h)
        rw [hnothing]
        rfl

/-- In a tree what is found at a path is what stands there, unless the path is too long. -/
theorem find_eq (ht : fs.Tree) (hp : p.Named) :
    fs.find p = if maxPath < p.text.utf8ByteSize then .error .fileSystem else .ok (fs.node? p) := by
  unfold find
  rw [ht.walk_eq hp]
  split
  · rfl
  · rw [List.nil_append]
    cases fs.node? p <;> rfl

end Tree

/-- Without two dots names lead nowhere but to their path. -/
theorem node?_of_walk (hdots : ".." ∉ names) {here : List String}
    (h : fs.walk ⟨here⟩ names = .ok (some (q, n))) : fs.node? ⟨here ++ names⟩ = some n := by
  induction names generalizing here with
  | nil =>
      rw [walk, Except.ok.injEq, Option.map_eq_some_iff] at h
      obtain ⟨m, hm, heq⟩ := h
      cases heq
      rwa [List.append_nil]
  | cons name rest ih =>
      obtain ⟨hname, hrest⟩ := List.ne_and_not_mem_of_not_mem_cons hdots
      rw [walk] at h
      split at h
      · rw [if_neg (by simpa using hname.symm)] at h
        obtain ⟨-, h⟩ := guard_eq_ok.mp h
        have hnode := ih hrest h
        rwa [List.append_assoc, List.singleton_append] at hnode
      · cases h

theorem node?_of_find (hdots : ".." ∉ p.names) (h : fs.find p = .ok (some n)) :
    fs.node? p = some n := by
  unfold find at h
  obtain ⟨-, h⟩ := guard_eq_ok.mp h
  obtain ⟨found, hwalk, h⟩ := bind_eq_ok.mp h
  obtain ⟨⟨q, m⟩, rfl, heq⟩ := Option.map_eq_some_iff.mp (pure_eq_ok.mp h)
  cases heq
  exact node?_of_walk hdots hwalk

end FileSystem

namespace Files

variable {fs : FileSystem} {home directory p : Path} {suffixes : List String} {v : Value}
  {file : File} {t : String}

/-! ## Opening -/

/-- The path can be opened as a project file by its text. -/
def Opens (fs : FileSystem) (home p : Path) : Prop :=
  ∃ file, existing fs home projectSuffixes (.text p.text) = .ok (p, file)

/-- What the path of a project file that can be opened is like. -/
theorem opens_iff (ht : fs.Tree) (hp : p.Named) : Opens fs home p ↔
    ∃ file, fs.node? p = some (.file file) ∧ p.text.utf8ByteSize ≤ FileSystem.maxPath ∧
      Text.lower p.suffix = ".json" ∧ file.size ≤ Document.maxFileSize := by
  refine exists_congr fun file => ?_
  have hfind : fs.find p = .ok (some (.file file)) ↔
      fs.node? p = some (.file file) ∧ p.text.utf8ByteSize ≤ FileSystem.maxPath := by
    rw [ht.find_eq hp, guard_eq_ok, Nat.not_lt, Except.ok.injEq, and_comm]
  rw [existing_eq_ok, hfind, and_assoc]
  constructor
  · rintro ⟨raw, -, -, hnode, hlength, hsuffix, hsize⟩
    exact ⟨hnode, hlength, by simpa [projectSuffixes] using hsuffix, hsize⟩
  · rintro ⟨hnode, hlength, hsuffix, hsize⟩
    exact ⟨p.text, Path.pathText_text hp "file", Path.resolve_text hp home, hnode, hlength,
      by simpa [projectSuffixes] using hsuffix, hsize⟩

/-- What can be opened by whatever text can be opened by the text of its path. -/
theorem opens_of_existing (ht : fs.Tree) (hhome : home.Named)
    (h : existing fs home projectSuffixes v = .ok (p, file)) : p.Named ∧ Opens fs home p := by
  obtain ⟨raw, -, hp, hfind, hsuffix, hsize⟩ := existing_eq_ok.mp h
  have hdots : ".." ∉ p.names :=
    hp ▸ Path.dots_not_mem_resolve fun hmem => (hhome _ hmem).ne_dots rfl
  have hnode := FileSystem.node?_of_find hdots hfind
  have hnamed := ht.named_of_node? hnode
  rw [ht.find_eq hnamed, guard_eq_ok] at hfind
  exact ⟨hnamed, (opens_iff ht hnamed).mpr
    ⟨file, hnode, Nat.le_of_not_lt hfind.1, by simpa [projectSuffixes] using hsuffix, hsize⟩⟩

/-! ## Listing -/

theorem mem_projectFiles : t ∈ projectFiles fs directory ↔
    ∃ p ∈ fs.entries.map Prod.fst, p.isBelow directory = true ∧ isProjectFile p = true ∧
      p.text = t := by
  unfold projectFiles FileSystem.below
  simp only [List.mem_mergeSort, List.mem_map (f := Path.text), List.mem_filter, and_assoc]

theorem named_of_mem (ht : fs.Tree) (h : p ∈ fs.entries.map Prod.fst) : p.Named := by
  obtain ⟨e, he, rfl⟩ := List.mem_map.mp h
  exact ht.named e he

theorem projectFiles_nodup (ht : fs.Tree) (directory : Path) :
    (projectFiles fs directory).Nodup := by
  refine (List.mergeSort_perm _ _).nodup_iff.mpr ?_
  refine List.Nodup.map_on (fun p hp q hq htext => ?_) ((ht.distinct.filter _).filter _)
  have hmem : ∀ q ∈ (fs.below directory).filter isProjectFile, q ∈ fs.entries.map Prod.fst :=
    fun q hq => (List.mem_filter.mp (List.mem_filter.mp hq).1).1
  exact Path.text_inj (named_of_mem ht (hmem p hp)) (named_of_mem ht (hmem q hq)) htext

theorem names_ne_nil_of_isBelow (h : p.isBelow directory = true) : p.names ≠ [] := by
  rintro hnames
  unfold Path.isBelow at h
  rw [hnames] at h
  cases hdirectory : directory.names <;> simp [hdirectory] at h

theorem listed_iff (ht : fs.Tree) (hp : p.Named) (hbelow : p.isBelow directory = true) :
    p.text ∈ projectFiles fs directory ↔
      (fs.node? p).isSome = true ∧ isProjectFile p = true := by
  rw [mem_projectFiles, FileSystem.node?_isSome_iff (names_ne_nil_of_isBelow hbelow)]
  constructor
  · rintro ⟨q, hq, -, hproject, htext⟩
    obtain rfl := Path.text_inj (named_of_mem ht hq) hp htext
    exact ⟨hq, hproject⟩
  · rintro ⟨hmem, hproject⟩
    exact ⟨p, hmem, hbelow, hproject, rfl⟩

/-! ## Where they differ -/

/-- No file is too large to be opened. -/
def WithinLimit (fs : FileSystem) : Prop :=
  ∀ p file, fs.node? p = some (.file file) → file.size ≤ Document.maxFileSize

/-- What is listed although no project file can be opened there. -/
inductive Unopened (fs : FileSystem) (p : Path) : Prop
  | directory : isProjectFile p = true → fs.node? p = some .directory → Unopened fs p
  | unsuffixed {file : File} : fs.node? p = some (.file file) → p.name = ".json" → Unopened fs p
  | long {file : File} : fs.node? p = some (.file file) → isProjectFile p = true →
      FileSystem.maxPath < p.text.utf8ByteSize → Unopened fs p

/-- What can be opened although it is not listed, for its suffix is `.json` with capitals. -/
structure Unlisted (fs : FileSystem) (p : Path) : Prop where
  file : ∃ file, fs.node? p = some (.file file)
  short : p.text.utf8ByteSize ≤ FileSystem.maxPath
  suffix : p.suffix.toList.map Char.toLower = ".json".toList
  capital : p.suffix ≠ ".json"

/-- The name `.json` has no suffix. -/
theorem suffix_of_name (h : p.name = ".json") : p.suffix = "" := by
  unfold Path.suffix
  rw [h]
  decide

theorem unopened_iff (ht : fs.Tree) (hsize : WithinLimit fs) (hp : p.Named) :
    ((fs.node? p).isSome = true ∧ isProjectFile p = true) ∧ ¬ Opens fs home p ↔
      Unopened fs p := by
  rw [opens_iff ht hp]
  constructor
  · rintro ⟨⟨hsome, hproject⟩, hclosed⟩
    obtain ⟨node, hnode⟩ := Option.isSome_iff_exists.mp hsome
    cases node with
    | directory => exact .directory hproject hnode
    | file file =>
        rcases isProjectFile_iff.mp hproject with hsuffix | hname
        · refine .long hnode hproject (Nat.lt_of_not_le fun hlength => hclosed ?_)
          exact ⟨file, hnode, hlength, by rw [hsuffix]; decide +kernel, hsize p file hnode⟩
        · exact .unsuffixed hnode hname
  · rintro (⟨hproject, hnode⟩ | ⟨hnode, hname⟩ | ⟨hnode, hproject, hlength⟩)
    all_goals rw [hnode]
    · exact ⟨⟨rfl, hproject⟩, fun ⟨_, hfile, _⟩ => nomatch hfile⟩
    · refine ⟨⟨rfl, isProjectFile_iff.mpr (.inr hname)⟩, fun ⟨_, _, _, hsuffix, _⟩ => ?_⟩
      rw [suffix_of_name hname] at hsuffix
      exact absurd hsuffix (by decide)
    · exact ⟨⟨rfl, hproject⟩, fun ⟨_, _, hfits, _⟩ => absurd hfits (Nat.not_le.mpr hlength)⟩

theorem unlisted_iff (ht : fs.Tree) (hsize : WithinLimit fs) (hp : p.Named) :
    Opens fs home p ∧ ¬ ((fs.node? p).isSome = true ∧ isProjectFile p = true) ↔
      Unlisted fs p := by
  rw [opens_iff ht hp]
  constructor
  · rintro ⟨⟨file, hnode, hshort, hlower, -⟩, hunlisted⟩
    refine ⟨⟨file, hnode⟩, hshort, Text.lower_json_iff.mp hlower, fun hsuffix => hunlisted ?_⟩
    exact ⟨by rw [hnode]; rfl, isProjectFile_iff.mpr (.inl hsuffix)⟩
  · rintro ⟨⟨file, hnode⟩, hshort, hlower, hne⟩
    refine ⟨⟨file, hnode, hshort, Text.lower_json_iff.mpr hlower, hsize p file hnode⟩, ?_⟩
    rintro ⟨-, hproject⟩
    rcases isProjectFile_iff.mp hproject with hsuffix | hname
    · exact hne hsuffix
    · rw [suffix_of_name hname] at hlower
      exact absurd hlower (by decide)

/-- In a tree in which no file is too large, paths below a directory are listed once each, and what
is listed can be opened and the other way round, but for the paths that are `Unopened` and those
that are `Unlisted`; these are on one side only. -/
theorem projectFiles_agree (ht : fs.Tree) (hsize : WithinLimit fs) (hhome : home.Named)
    (directory : Path) :
    (projectFiles fs directory).Nodup ∧
      (∀ t ∈ projectFiles fs directory, ∃ p,
        p.Named ∧ p.isBelow directory = true ∧ (fs.node? p).isSome = true ∧ p.text = t) ∧
      (∀ v p file, existing fs home projectSuffixes v = .ok (p, file) →
        p.Named ∧ Opens fs home p) ∧
      ∀ p, p.Named → p.isBelow directory = true →
        (p.text ∈ projectFiles fs directory ∧ ¬ Opens fs home p ↔ Unopened fs p) ∧
        (Opens fs home p ∧ p.text ∉ projectFiles fs directory ↔ Unlisted fs p) := by
  refine ⟨projectFiles_nodup ht directory, fun t h => ?listed,
    fun v p file => opens_of_existing ht hhome, fun p hp hbelow => ?differ⟩
  case listed =>
    obtain ⟨p, hmem, hbelow, -, htext⟩ := mem_projectFiles.mp h
    have hsome := (FileSystem.node?_isSome_iff (names_ne_nil_of_isBelow hbelow)).mpr hmem
    exact ⟨p, named_of_mem ht hmem, hbelow, hsome, htext⟩
  case differ =>
    rw [listed_iff ht hp hbelow]
    exact ⟨unopened_iff ht hsize hp, unlisted_iff ht hsize hp⟩

/-- A project file among a directory, a file without a suffix and a file with capitals, each of
which has `.json` in its name. -/
def strays : FileSystem := ⟨[
  (⟨["a.json"]⟩, .file { text := "" }), (⟨["d.json"]⟩, .directory),
  (⟨["d.json", "x.JSON"]⟩, .file { text := "" }), (⟨[".json"]⟩, .file { text := "" })]⟩

theorem strays_withinLimit : WithinLimit strays := by
  intro p file h
  have hp : p.names ≠ [] := by
    rintro hnames
    simp [FileSystem.node?, hnames] at h
  have hmem := FileSystem.mem_of_node? h hp
  simp only [strays, List.mem_cons, List.not_mem_nil, or_false] at hmem
  rcases hmem with heq | heq | heq | heq <;> cases heq <;> decide +kernel

/-- The strays are a tree, so the file with capitals is one of those that are not listed. -/
theorem strays_agree :
    strays.Tree ∧ WithinLimit strays ∧ Path.Named ⟨[]⟩ ∧ (projectFiles strays ⟨[]⟩).Nodup ∧
      Unlisted strays ⟨["d.json", "x.JSON"]⟩ := by
  have htree : strays.Tree := by decide
  have hhome : Path.Named ⟨[]⟩ := by decide
  have hopens : Opens strays ⟨[]⟩ ⟨["d.json", "x.JSON"]⟩ := ⟨{ text := "" }, by decide +kernel⟩
  have hhidden : Path.text ⟨["d.json", "x.JSON"]⟩ ∉ projectFiles strays ⟨[]⟩ := by
    rw [mem_projectFiles]
    decide +kernel
  obtain ⟨hnodup, -, -, hdiffer⟩ := projectFiles_agree htree strays_withinLimit hhome ⟨[]⟩
  obtain ⟨-, hunlisted⟩ := hdiffer ⟨["d.json", "x.JSON"]⟩ (by decide +kernel) (by decide)
  exact ⟨htree, strays_withinLimit, hhome, hnodup, hunlisted.mp ⟨hopens, hhidden⟩⟩

/-- Of the strays one is a project file that can be opened but is not listed, and two are listed
but cannot be opened. -/
theorem strays_disagree :
    strays.Tree ∧ WithinLimit strays ∧
      ("/d.json" ∈ projectFiles strays ⟨[]⟩ ∧
        existing strays ⟨[]⟩ projectSuffixes (.text "/d.json") =
          .error (.badValue "Not a regular file: /d.json")) ∧
      ("/.json" ∈ projectFiles strays ⟨[]⟩ ∧
        existing strays ⟨[]⟩ projectSuffixes (.text "/.json") =
          .error (.badValue "Invalid file type ''. Allowed: .json")) ∧
      "/d.json/x.JSON" ∉ projectFiles strays ⟨[]⟩ ∧
        existing strays ⟨[]⟩ projectSuffixes (.text "/d.json/x.JSON") =
          .ok (⟨["d.json", "x.JSON"]⟩, { text := "" }) := by
  refine ⟨by decide, strays_withinLimit, ⟨?_, by decide +kernel⟩, ⟨?_, by decide +kernel⟩, ?_,
    by decide +kernel⟩
  all_goals
    rw [mem_projectFiles]
    decide +kernel

end Files

end Montage
