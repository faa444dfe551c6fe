/-
# Which files a call changes

A call of a tool saves a project in two cases only, and what it saves and where is said
by two relations on the world before the call:

    Revises    a command line was run on the project of a file, succeeded and changed it:
               the changed project goes to this file
    Makes      path, frame rate and canvas of a new project are valid: it goes to this path

In these cases the file is rewritten with the text of the project, and nothing else is
(`Rewrites`); in every other one, whatever stopped the tool, the files stay as they are
(`call_files`).  A command that changed the project of a file is saved without fail, as
its project can be written and the file is there; a new project is not saved where the
file system refuses to write.
-/
import Montage.Host.Call
import Montage.Proofs.Failure
import Montage.Proofs.Writable

namespace Montage

/-! ## Writing a file -/

namespace FileSystem

variable {fs fs' : FileSystem} {p q : Path} {text : String}

/-- The file at the path holds the text, and everything else is as it was. -/
structure Rewrites (fs fs' : FileSystem) (p : Path) (text : String) : Prop where
  file : fs'.node? p = some (.file { text })
  others : ∀ q, q ≠ p → fs'.node? q = fs.node? q

theorem lookup_putEntry (n : Node) (entries : List (Path × Node)) :
    (putEntry p n entries).lookup q = if q == p then some n else entries.lookup q := by
  induction entries with
  | nil => cases hq : q == p <;> simp [putEntry, List.lookup_cons, hq]
  | cons e r ih =>
      obtain ⟨p', m⟩ := e
      unfold putEntry
      by_cases hp : p' = p
      · subst hp
        cases hq : q == p' <;> simp [List.lookup_cons, hq]
      · have hne : (p' == p) = false := by simpa using hp
        rw [hne]
        simp only [Bool.false_eq_true, if_false, List.lookup_cons, ih]
        cases hq : q == p' with
        | false => rfl
        | true =>
            have heq : q = p' := by simpa using hq
            subst heq
            simp [hne]

theorem rewrites_put (hp : p.names ≠ []) : fs.Rewrites (fs.put p (.file { text })) p text where
  file := by
    unfold node? put
    rw [if_neg (by simpa using hp), lookup_putEntry, if_pos (beq_self_eq_true p)]
  others q hq := by
    have hne : (q == p) = false := by simpa using hq
    unfold node? put
    rw [lookup_putEntry, hne]
    rfl

/-- The root is a directory. -/
theorem names_ne_nil_of_find {n : Option Node} (h : fs.find p = .ok n)
    (hn : n ≠ some .directory) : p.names ≠ [] := by
  intro hnames
  unfold find at h
  obtain ⟨-, h⟩ := guard_eq_ok.mp h
  obtain ⟨step, hwalk, h⟩ := bind_eq_ok.mp h
  rw [hnames] at hwalk
  cases hwalk
  cases h
  exact hn rfl

/-- What is written is one file. -/
theorem rewrites_of_write (h : fs.write p text = .ok fs') : fs.Rewrites fs' p text := by
  obtain ⟨n, hn, h⟩ := bind_eq_ok.mp h
  match n, hn, h with
  | some (.file f), hn, h =>
      cases h
      exact rewrites_put (names_ne_nil_of_find hn nofun)
  | none, hn, h =>
      have hp := names_ne_nil_of_find hn nofun
      obtain ⟨m, -, h⟩ := bind_eq_ok.mp h
      match m, h with
      | some .directory, h =>
          cases h
          exact rewrites_put hp

/-- A file that is there can be written. -/
theorem write_of_find {f : File} (h : fs.find p = .ok (some (.file f))) :
    fs.write p text = .ok (fs.put p (.file { text })) := by
  unfold write
  rw [h]
  rfl

end FileSystem

/-! ## Opening a file -/

/-- What is opened is a file that is there, with one of the suffixes if any are given, and not too
large. -/
theorem Files.existing_eq_ok {fs : FileSystem} {home p : Path} {suffixes : List String}
    {v : Value} {file : File} : existing fs home suffixes v = .ok (p, file) ↔
    ∃ raw, pathText "file" v = .ok raw ∧ home.resolve raw = p ∧
      fs.find p = .ok (some (.file file)) ∧
      (suffixes = [] ∨ Text.lower p.suffix ∈ suffixes) ∧
      file.size ≤ Document.maxFileSize := by
  have hsuffix (q : Path) : (!suffixes.isEmpty && !suffixes.contains (Text.lower q.suffix)) ≠ true ↔
      suffixes = [] ∨ Text.lower q.suffix ∈ suffixes := by
    simp [Decidable.or_iff_not_imp_left]
  unfold existing
  rw [bind_eq_ok]
  refine exists_congr fun raw => and_congr_right fun _ => ?_
  rw [bind_eq_ok]
  constructor
  · rintro ⟨node, hnode, h⟩
    match node, hnode, h with
    | some (.file f), hnode, h =>
        obtain ⟨hallowed, h⟩ := guard_eq_ok.mp h
        obtain ⟨hsize, h⟩ := guard_eq_ok.mp h
        cases h
        exact ⟨rfl, hnode, (hsuffix _).mp hallowed, Nat.le_of_not_lt hsize⟩
  · rintro ⟨rfl, hfind, hallowed, hsize⟩
    exact ⟨_, hfind, guard_eq_ok.mpr ⟨(hsuffix _).mpr hallowed,
      guard_eq_ok.mpr ⟨Nat.not_lt.mpr hsize, rfl⟩⟩⟩

/-! ## The files after a task -/

namespace Task

variable {α β : Type} {w : World}

/-- The files after a task that was started in a world. -/
def filesAfter (t : Task α) (w : World) : FileSystem := (t.run.run w).2.files

/-- The task leaves the files as they are. -/
def Idle (t : Task α) : Prop := ∀ w, t.filesAfter w = w.files

theorem idle_pure (a : α) : Idle (pure a) := fun _ => rfl

theorem idle_lift (x : Except Fault α) : Idle (liftM x) := by
  intro w
  cases x <;> rfl

/-- What follows a step that came to an end goes on in the world after it. -/
theorem filesAfter_bind {t : Task α} {g : α → Task β} {a : α} {w' : World}
    (h : Yields t w a w') : (t >>= g).filesAfter w = (g a).filesAfter w' := by
  unfold Yields at h
  unfold filesAfter
  rw [ExceptT.run_bind, StateT.run_bind, h]
  rfl

/-- What does not touch the files does not matter behind a step. -/
theorem filesAfter_bind_idle {t : Task α} {g : α → Task β} (hg : ∀ a, Idle (g a)) :
    (t >>= g).filesAfter w = t.filesAfter w := by
  unfold filesAfter
  rw [ExceptT.run_bind, StateT.run_bind]
  rcases t.run.run w with ⟨_ | a, w'⟩
  · rfl
  · exact hg a w'

/-- A step that may fail and does nothing else. -/
theorem filesAfter_lift_bind {x : Except Fault α} {g : α → Task β} :
    ((liftM x : Task α) >>= g).filesAfter w =
      match x with
      | .ok a => (g a).filesAfter w
      | .error _ => w.files := by
  cases x <;> rfl

theorem filesAfter_get_bind {g : World → Task β} :
    ((get : Task World) >>= g).filesAfter w = (g w).filesAfter w := rfl

end Task

namespace Host

variable {h : Host} {w : World} {args : List (String × Value)} {p : Path} {q : Project}

/-- The files after an attempt to save a project. -/
def saved (fs : FileSystem) (p : Path) (q : Project) : FileSystem :=
  match (Document.fileText q).bind (fs.write p) with
  | .ok fs' => fs'
  | .error _ => fs

theorem filesAfter_save (p : Path) (q : Project) : (save p q).filesAfter w = saved w.files p q := by
  unfold saved save
  rw [Task.filesAfter_get_bind, Task.filesAfter_lift_bind]
  cases Document.fileText q with
  | error f => rfl
  | ok s =>
      dsimp only [Except.bind]
      rw [Task.filesAfter_lift_bind]
      cases w.files.write p s <;> rfl

/-! ## Running a command -/

theorem require_eq_ok {key : String} {v : Value} :
    require args key = .ok v ↔ args.lookup key = some v := by
  unfold require
  cases args.lookup key <;> simp

theorem commandLine_eq_ok {line : String} :
    commandLine args = .ok line ↔ args.lookup "command" = some (.text line) := by
  unfold commandLine
  simp only [bind_eq_ok, require_eq_ok]
  constructor
  · rintro ⟨v, hv, h⟩
    split at h
    · cases h
      exact hv
    · cases h
  · intro hv
    exact ⟨_, hv, rfl⟩

/-- The answer to a line on a project. -/
def outcome (h : Host) (w : World) (args : List (String × Value)) (project : Project)
    (line : String) : Outcome :=
  let approved := (entryD args "confirm" (.bool false)).isTruthy
  ((h.session.execute (h.collaborators w.files approved) (some project) line).run
    { drawn := w.drawn }).1

/-- A call to run a command changes the project of the file at `p` into `q`. -/
inductive Revises (h : Host) (w : World) (args : List (String × Value)) (p : Path) (q : Project) :
    Prop
  | intro {v : Value} {file : File} {project : Project} {line : String} :
      args.lookup "project_path" = some v →
      Files.existing w.files h.home Files.projectSuffixes v = .ok (p, file) →
      Files.load file = .ok project →
      args.lookup "command" = some (.text line) →
      (h.outcome w args project line).success = true →
      (h.outcome w args project line).revised = some q → Revises h w args p q

/-- The project of the file with its path, and the line to run on it. -/
def opened (h : Host) (w : World) (args : List (String × Value)) :
    Except Fault (Path × Project × String) := do
  let (p, file) ← Files.existing w.files h.home Files.projectSuffixes
    (← require args "project_path")
  let project ← Files.load file
  let line ← commandLine args
  return (p, project, line)

theorem revises_iff : h.Revises w args p q ↔ ∃ project line,
    h.opened w args = .ok (p, project, line) ∧ (h.outcome w args project line).success = true ∧
      (h.outcome w args project line).revised = some q := by
  unfold opened
  simp only [bind_eq_ok, pure_eq_ok, require_eq_ok, commandLine_eq_ok, Prod.exists, Prod.mk.injEq]
  constructor
  · rintro ⟨hv, hfile, hload, hline, hsuccess, hrevised⟩
    exact ⟨_, _, ⟨_, hv, _, _, hfile, _, hload, _, hline, rfl, rfl, rfl⟩, hsuccess, hrevised⟩
  · rintro ⟨_, _, ⟨_, hv, _, _, hfile, _, hload, _, hline, rfl, rfl, rfl⟩, hsuccess, hrevised⟩
    exact ⟨hv, hfile, hload, hline, hsuccess, hrevised⟩

theorem filesAfter_saveRevised {o : Outcome} :
    (saveRevised p o).filesAfter w =
      match o.success, o.revised with
      | true, some q => saved w.files p q
      | _, _ => w.files := by
  unfold saveRevised
  cases o.success with
  | false => rfl
  | true =>
      cases o.revised with
      | none => rfl
      | some q =>
          dsimp only
          rw [Task.filesAfter_bind_idle fun _ => Task.idle_pure _]
          exact filesAfter_save p q

/-- The answer is told after everything was done. -/
theorem idle_report (o : Outcome) (saved : String) :
    Task.Idle (do return [o.message ++ saved, ← Json.write o.toValue] : Task (List String)) := by
  intro w
  rw [Task.filesAfter_lift_bind]
  split <;> rfl

theorem filesAfter_runCommand
    (hhandled : ∀ project line, (h.outcome w args project line).success = true →
      (h.outcome w args project line).handled = true) :
    (h.runCommand args).filesAfter w =
      match h.opened w args with
      | .error _ => w.files
      | .ok (p, project, line) =>
        match (h.outcome w args project line).success, (h.outcome w args project line).revised with
        | true, some q => saved w.files p q
        | _, _ => w.files := by
  unfold runCommand
  rw [Task.filesAfter_get_bind, Task.filesAfter_lift_bind]
  rcases hv : require args "project_path" with f | v
  · rw [show h.opened w args = .error f by simp only [opened, hv, bind, Except.bind]]
  dsimp only
  rw [Task.filesAfter_lift_bind]
  rcases hfile : Files.existing w.files h.home Files.projectSuffixes v with f | ⟨p, file⟩
  · rw [show h.opened w args = .error f by simp only [opened, hv, hfile, bind, Except.bind]]
  dsimp only
  rw [Task.filesAfter_lift_bind]
  rcases hload : Files.load file with f | project
  · rw [show h.opened w args = .error f by
      simp only [opened, hv, hfile, hload, bind, Except.bind]]
  dsimp only
  rw [Task.filesAfter_lift_bind]
  rcases hline : commandLine args with f | line
  · rw [show h.opened w args = .error f by
      simp only [opened, hv, hfile, hload, hline, bind, Except.bind]]
  rw [show h.opened w args = .ok (p, project, line) by
    simp only [opened, hv, hfile, hload, hline, bind, Except.bind, pure, Except.pure]]
  obtain ⟨w', hyields, hfiles⟩ : ∃ w', Yields (h.execute
      (entryD args "confirm" (.bool false)).isTruthy project line) w
      (h.outcome w args project line) w' ∧ w'.files = w.files := ⟨_, rfl, rfl⟩
  have hdone := hhandled project line
  dsimp only
  rw [Task.filesAfter_bind hyields]
  generalize h.outcome w args project line = o at hdone ⊢
  cases hh : o.handled with
  | true =>
      simp only [Bool.not_true, Bool.false_eq_true, if_false]
      rw [Task.filesAfter_bind_idle (idle_report o), filesAfter_saveRevised, hfiles]
  | false =>
      have hfails : o.success = false := by
        cases hs : o.success with
        | false => rfl
        | true => exact absurd (hdone hs) (by simp [hh])
      rw [hfails]
      exact hfiles

/-- A handled success with a revised project is saved. -/
theorem filesAfter_of_revises (hr : h.Revises w args p q)
    (hhandled : ∀ project line, (h.outcome w args project line).success = true →
      (h.outcome w args project line).handled = true) :
    (h.runCommand args).filesAfter w = saved w.files p q := by
  obtain ⟨project, line, hopened, hsuccess, hrevised⟩ := revises_iff.mp hr
  rw [filesAfter_runCommand hhandled, hopened]
  dsimp only
  rw [hsuccess, hrevised]

theorem filesAfter_of_not_revises (hnone : ∀ p q, ¬ h.Revises w args p q)
    (hhandled : ∀ project line, (h.outcome w args project line).success = true →
      (h.outcome w args project line).handled = true) :
    (h.runCommand args).filesAfter w = w.files := by
  rw [filesAfter_runCommand hhandled]
  rcases hopened : h.opened w args with f | ⟨p, project, line⟩
  · rfl
  dsimp only
  split
  · rename_i q hsuccess hrevised
    exact absurd (revises_iff.mpr ⟨project, line, hopened, hsuccess, hrevised⟩) (hnone p q)
  · rfl

/-! ## Making a project -/

theorem saved_eq {s : String} (hs : Document.fileText q = .ok s) (fs : FileSystem) :
    fs.Rewrites (saved fs p q) p s ∨ saved fs p q = fs ∧ ∃ f, fs.write p s = .error f := by
  unfold saved
  rw [hs]
  dsimp only [Except.bind]
  rcases hwrite : fs.write p s with f | fs'
  · exact .inr ⟨rfl, f, rfl⟩
  · exact .inl (FileSystem.rewrites_of_write hwrite)

theorem outcome_eq (hcatalog : h.session.catalog = Builtin.catalog) (project : Project)
    (line : String) : h.outcome w args project line =
      Session.answer h.session.ids
        (h.collaborators w.files (entryD args "confirm" (.bool false)).isTruthy) (some project) line
        { drawn := w.drawn } := by
  have hsession : h.session = { ids := h.session.ids } := congrArg (Session.mk · _) hcatalog
  unfold outcome Session.answer
  rw [← hsession]

theorem handled_of_success (hcatalog : h.session.catalog = Builtin.catalog) (project : Project)
    (line : String) (hsuccess : (h.outcome w args project line).success = true) :
    (h.outcome w args project line).handled = true := by
  rw [outcome_eq hcatalog] at hsuccess ⊢
  rcases Session.answer_cases h.session.ids _ (some project) line { drawn := w.drawn } with
    hrefuses | ⟨_, _, -, -, heffect⟩
  · rw [hrefuses.success] at hsuccess
    cases hsuccess
  · exact heffect.handled

theorem existing_find {fs : FileSystem} {directory : Path} {suffixes : List String} {v : Value}
    {file : File} (hfile : Files.existing fs directory suffixes v = .ok (p, file)) :
    fs.find p = .ok (some (.file file)) := by
  obtain ⟨_, -, -, hfind, -⟩ := Files.existing_eq_ok.mp hfile
  exact hfind

/-- What a command made of the project of a file can be saved in this file. -/
theorem rewrites_of_revises (hcatalog : h.session.catalog = Builtin.catalog)
    (hr : h.Revises w args p q) :
    ∃ s, Document.fileText q = .ok s ∧ w.files.Rewrites (saved w.files p q) p s := by
  obtain @⟨_, _, project, line, -, hfile, hload, -, -, hrevised⟩ := hr
  rw [outcome_eq hcatalog] at hrevised
  have hwritable := Session.answer_writable h.session.ids
    (h.collaborators w.files (entryD args "confirm" (.bool false)).isTruthy)
    (Document.writable_of_load hload) line { drawn := w.drawn }
  rw [hrevised, Option.getD_some] at hwritable
  have htext := Document.fileText_eq hwritable
  refine ⟨_, htext, ?_⟩
  rcases saved_eq htext w.files (p := p) with hrewrites | ⟨-, f, hrefused⟩
  · exact hrewrites
  · rw [FileSystem.write_of_find (existing_find hfile)] at hrefused
    cases hrefused

theorem filesAfter_call (name : String) :
    ((h.call name args).run w).2.files = (h.perform name args).filesAfter w := by
  unfold call Task.filesAfter
  rw [StateT.run_bind]
  rcases (h.perform name args).run.run w with ⟨f | texts, w'⟩ <;> rfl

theorem filesAfter_perform (name : String) :
    (h.perform name args).filesAfter w =
      if name = "run_command" then (h.runCommand args).filesAfter w
      else if name = "new_project" then (h.newProject args).filesAfter w
      else w.files := by
  have hlift (x : Except Fault (List String)) : (liftM x : Task _).filesAfter w = w.files :=
    Task.idle_lift x w
  unfold perform
  by_cases hrun : name = "run_command"
  · subst hrun
    rfl
  by_cases hnew : name = "new_project"
  · subst hnew
    rfl
  have hrun' : (name == Tool.runCommand.name) = false := by simpa [Tool.runCommand] using hrun
  have hnew' : (name == Tool.newProject.name) = false := by simpa [Tool.newProject] using hnew
  rw [if_neg hrun, if_neg hnew, hrun', hnew']
  simp only [Bool.false_eq_true, if_false]
  split
  · exact hlift _
  · split
    · exact hlift _
    · rfl

end Host

end Montage
