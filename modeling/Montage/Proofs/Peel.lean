/-
# Computations taken apart

A command is a chain of steps of which each may fail.  If the whole answers,
then so did every step; the lemmas here turn "the chain answers `b`" into the
answers of its steps, one after the other, so that no later proof opens a chain
by hand.  Rewriting with all of them at once leaves the list of the facts that a
successful run has established.

Steps with effects also thread a state, the journal of a command or the number of
ids drawn: `Yields x s a s'` says that `x`, started in the state `s`, answers `a`
and ends in the state `s'`.
-/
import Mathlib.Data.List.Forall2
import Montage.Command.Session

namespace Montage

/-! ## Steps that may fail -/

section Except
variable {ε α β γ : Type} {a b : α} {c : β} {f : ε}

theorem bind_eq_ok {x : Except ε α} {g : α → Except ε β} :
    x >>= g = .ok c ↔ ∃ a, x = .ok a ∧ g a = .ok c := by
  cases x with
  | error f => simp [bind, Except.bind]
  | ok a => simp [bind, Except.bind]

theorem pure_eq_ok : (pure a : Except ε α) = .ok b ↔ a = b := by
  simp [pure, Except.pure]

theorem map_eq_ok {x : Except ε α} {g : α → β} :
    x.map g = .ok c ↔ ∃ a, x = .ok a ∧ g a = c := by
  cases x with
  | error f => simp [Except.map]
  | ok a => simp [Except.map]

/-- A failure drops what was to follow. -/
theorem error_bind {g : α → Except ε β} : (Except.error f >>= g) = .error f := rfl

theorem ok_bind {g : α → Except ε β} : (Except.ok a >>= g) = g a := rfl

/-- A chain fails at its first step or behind it. -/
theorem bind_eq_error {x : Except ε α} {g : α → Except ε β} :
    x >>= g = .error f ↔ x = .error f ∨ ∃ a, x = .ok a ∧ g a = .error f := by
  cases x with
  | error e => simp [bind, Except.bind]
  | ok a => simp [bind, Except.bind]

theorem map_eq_error {x : Except ε α} {g : α → β} : x.map g = .error f ↔ x = .error f := by
  cases x with
  | error e => simp [Except.map]
  | ok a => simp [Except.map]

/-- A step that fails if a condition holds was passed only if it does not. -/
theorem guard_eq_ok {p : Prop} [Decidable p] {x : Except ε α} :
    (if p then .error f else x) = .ok a ↔ ¬ p ∧ x = .ok a := by
  by_cases h : p
  · simp [h]
  · simp [h]

/-- A conversion of all items answers what it answers for the items, one by one. -/
theorem mapM_eq_ok {g : α → Except ε β} {xs : List α} {ys : List β} :
    xs.mapM g = .ok ys ↔ List.Forall₂ (fun x y => g x = .ok y) xs ys := by
  induction xs generalizing ys with
  | nil => rw [List.mapM_nil, pure_eq_ok, List.forall₂_nil_left_iff, eq_comm]
  | cons x xs ih =>
      rw [List.mapM_cons]
      simp only [bind_eq_ok, pure_eq_ok, List.forall₂_cons_left_iff, ih]
      constructor
      · rintro ⟨y, hy, ys, hys, rfl⟩
        exact ⟨y, ys, hy, hys, rfl⟩
      · rintro ⟨y, ys, hy, hys, rfl⟩
        exact ⟨y, hy, ys, hys, rfl⟩

theorem exists_of_mem_mapM {g : α → Except ε β} {xs : List α} {ys : List β} {y : β}
    (h : xs.mapM g = .ok ys) (hy : y ∈ ys) : ∃ x ∈ xs, g x = .ok y := by
  have hall := mapM_eq_ok.mp h
  obtain ⟨⟨i, hi⟩, rfl⟩ := List.mem_iff_get.mp hy
  have hlt : i < xs.length := hall.length_eq ▸ hi
  exact ⟨_, List.get_mem xs ⟨i, hlt⟩, hall.get hlt hi⟩

theorem exists_mem_of_mapM {g : α → Except ε β} {xs : List α} {ys : List β} {x : α}
    (h : xs.mapM g = .ok ys) (hx : x ∈ xs) : ∃ y ∈ ys, g x = .ok y := by
  have hall := mapM_eq_ok.mp h
  obtain ⟨⟨i, hi⟩, rfl⟩ := List.mem_iff_get.mp hx
  have hlt : i < ys.length := hall.length_eq ▸ hi
  exact ⟨_, List.get_mem ys ⟨i, hlt⟩, hall.get hi hlt⟩

/-- A conversion that answers for each item answers for all. -/
theorem exists_mapM {g : α → Except ε β} {xs : List α}
    (h : ∀ x ∈ xs, ∃ y, g x = .ok y) : ∃ ys, xs.mapM g = .ok ys := by
  induction xs with
  | nil => exact ⟨[], rfl⟩
  | cons x xs ih =>
      obtain ⟨y, hy⟩ := h x List.mem_cons_self
      obtain ⟨ys, hys⟩ := ih fun z hz => h z (List.mem_cons_of_mem _ hz)
      refine ⟨y :: ys, ?_⟩
      rw [List.mapM_cons, hy, hys]
      rfl

/-- What is told of each answer by its item is told of the answers by the items. -/
theorem map_of_mapM {g : α → Except ε β} {xs : List α} {ys : List β} {k : β → γ} {l : α → γ}
    (h : xs.mapM g = .ok ys) (htold : ∀ x y, g x = .ok y → k y = l x) : ys.map k = xs.map l := by
  rw [eq_comm, ← List.forall₂_eq_eq_eq, List.forall₂_map_left_iff, List.forall₂_map_right_iff]
  exact (mapM_eq_ok.mp h).imp fun x y hxy => (htold x y hxy).symm

/-- A test that answers for each item keeps those for which it answers so. -/
theorem filterM_eq_ok {test : α → Except ε Bool} {keep : α → Bool} {xs : List α}
    (h : ∀ x ∈ xs, test x = .ok (keep x)) : xs.filterM test = .ok (xs.filter keep) := by
  suffices hgen : ∀ kept, xs.filterAuxM test kept = .ok ((xs.filter keep).reverse ++ kept) by
    rw [List.filterM, hgen, ok_bind, List.append_nil, List.reverse_reverse]
    rfl
  induction xs with
  | nil => exact fun kept => rfl
  | cons x xs ih =>
      intro kept
      rw [List.filterAuxM, h x List.mem_cons_self, ok_bind,
        ih fun y hy => h y (List.mem_cons_of_mem x hy), List.filter_cons]
      cases keep x <;> simp

theorem toOption_eq_some {x : Except ε α} : x.toOption = some a ↔ x = .ok a := by
  cases x <;> simp [Except.toOption]

theorem mapM_congr {g g' : α → Except ε β} {xs : List α} (h : ∀ x ∈ xs, g x = g' x) :
    xs.mapM g = xs.mapM g' := by
  induction xs with
  | nil => rfl
  | cons x xs ih =>
      rw [List.mapM_cons, List.mapM_cons, h x List.mem_cons_self,
        ih fun y hy => h y (List.mem_cons_of_mem _ hy)]

end Except

/-! ## Steps with effects -/

/-- `x`, started in the state `s`, answers `a` and ends in the state `s'`. -/
def Yields {σ α : Type} (x : ExceptT Fault (StateM σ) α) (s : σ) (a : α) (s' : σ) : Prop :=
  x.run.run s = (.ok a, s')

section Yields
variable {σ α β : Type} {s s' : σ} {a b : α} {c : β}

theorem yields_bind {x : ExceptT Fault (StateM σ) α} {g : α → ExceptT Fault (StateM σ) β} :
    Yields (x >>= g) s c s' ↔ ∃ a t, Yields x s a t ∧ Yields (g a) t c s' := by
  unfold Yields
  rw [ExceptT.run_bind, StateT.run_bind]
  rcases x.run.run s with ⟨_ | a, t⟩
  · constructor
    · intro h; cases h
    · rintro ⟨a, t', h, -⟩; cases h
  · constructor
    · intro h; exact ⟨a, t, rfl, h⟩
    · rintro ⟨a', t', h, h'⟩; cases h; exact h'

theorem yields_pure : Yields (pure a) s b s' ↔ a = b ∧ s = s' := by
  constructor
  · intro h; cases h; exact ⟨rfl, rfl⟩
  · rintro ⟨rfl, rfl⟩; rfl

/-- A step without effects keeps the state. -/
theorem yields_lift {x : Except Fault α} :
    Yields (liftM x) s a s' ↔ x = .ok a ∧ s = s' := by
  cases x with
  | error f =>
      constructor
      · intro h; cases h
      · rintro ⟨h, -⟩; cases h
  | ok b =>
      constructor
      · intro h; cases h; exact ⟨rfl, rfl⟩
      · rintro ⟨h, rfl⟩; cases h; rfl

theorem not_yields_throw {f : Fault} : ¬ Yields (throw f) s a s' := by
  intro h; cases h

/-- Drawing ids counts the draws and leaves the rest of the journal alone. -/
theorem yields_draw {d : Drawing α} {j j' : Journal} :
    Yields (Act.draw d) j a j' ↔ ∃ n, Yields d j.drawn a n ∧ { j with drawn := n } = j' := by
  have hrun : (Act.draw d).run.run j
      = ((d.run.run j.drawn).1, { j with drawn := (d.run.run j.drawn).2 }) := rfl
  unfold Yields
  rw [hrun]
  rcases d.run.run j.drawn with ⟨x, n⟩
  constructor
  · intro h; cases h; exact ⟨n, rfl, rfl⟩
  · rintro ⟨n', h, rfl⟩; cases h; rfl

end Yields

end Montage
