import NedoCron.Lib.Machine

namespace Simulation

/-!
# Simulation of a machine by a transition system

A transition system says which steps are allowed; a step is labelled with what can be seen of it,
or it is silent.  A machine is simulated by it if each step of the machine is a path of the system
that shows the same.

* `Path` — steps one after another, with all that can be seen of them;
* `Path.invariant` — what every step keeps, a path keeps;
* `Simulates.run` — a run of the machine is a path of the system, from the image of its first
  state to the image of its last one.
-/

variable {σ τ ι α : Type*}

/-- Which steps are allowed; `none` labels a silent one. -/
abbrev System (τ α : Type*) := τ → Option α → τ → Prop

/-- Steps one after another, with the labels that can be seen. -/
inductive Path (allowed : System τ α) : τ → List α → τ → Prop where
  | refl (s : τ) : Path allowed s [] s
  | silent {s t u : τ} {as : List α} (h : allowed s none t) (rest : Path allowed t as u) :
    Path allowed s as u
  | seen {s t u : τ} {a : α} {as : List α} (h : allowed s (some a) t)
    (rest : Path allowed t as u) : Path allowed s (a :: as) u

variable {allowed : System τ α}

/-- A path of one step that nobody sees. -/
theorem Path.single_silent {s t : τ} (h : allowed s none t) : Path allowed s [] t :=
  .silent h (.refl t)

/-- A path of one step that is seen. -/
theorem Path.single_seen {s t : τ} {a : α} (h : allowed s (some a) t) : Path allowed s [a] t :=
  .seen h (.refl t)

/-- Two paths after each other. -/
theorem Path.append {s t u : τ} {as bs : List α} (h : Path allowed s as t)
    (h' : Path allowed t bs u) : Path allowed s (as ++ bs) u := by
  induction h with
  | refl s => exact h'
  | silent hstep _ ih => exact .silent hstep (ih h')
  | seen hstep _ ih => exact .seen hstep (ih h')

/-- A path that shows one list after another goes through a state between them. -/
theorem Path.split {s u : τ} {as bs : List α} (h : Path allowed s (as ++ bs) u) :
    ∃ t, Path allowed s as t ∧ Path allowed t bs u := by
  generalize hshown : as ++ bs = cs at h
  induction h generalizing as with
  | refl s =>
    obtain ⟨rfl, rfl⟩ := List.append_eq_nil_iff.mp hshown
    exact ⟨s, .refl s, .refl s⟩
  | silent hstep _ ih =>
    obtain ⟨t, hfirst, hrest⟩ := ih hshown
    exact ⟨t, .silent hstep hfirst, hrest⟩
  | @seen s t u a cs hstep hpath ih =>
    cases as with
    | nil =>
      rw [List.nil_append] at hshown
      rw [hshown]
      exact ⟨s, .refl s, .seen hstep hpath⟩
    | cons a' as =>
      obtain ⟨rfl, hrest⟩ := List.cons.inj hshown
      obtain ⟨t', hfirst, hlast⟩ := ih hrest
      exact ⟨t', .seen hstep hfirst, hlast⟩

/-- The step that shows the first label of a path. -/
theorem Path.step_of_cons {s u : τ} {a : α} {as : List α} (h : Path allowed s (a :: as) u) :
    ∃ t t', Path allowed s [] t ∧ allowed t (some a) t' ∧ Path allowed t' as u := by
  generalize hshown : a :: as = cs at h
  induction h with
  | refl s => exact absurd hshown (by simp)
  | silent hstep _ ih =>
    obtain ⟨t, t', hbefore, hseen, hafter⟩ := ih hshown
    exact ⟨t, t', .silent hstep hbefore, hseen, hafter⟩
  | @seen s t u b bs hstep hpath _ =>
    obtain ⟨rfl, rfl⟩ := List.cons.inj hshown
    exact ⟨s, t, .refl s, hstep, hpath⟩

/-- **Paths.**  What every step keeps, a path keeps; the labels seen so far may be used. -/
theorem Path.invariant {P : List α → τ → Prop}
    (hsilent : ∀ as s t, allowed s none t → P as s → P as t)
    (hseen : ∀ as s a t, allowed s (some a) t → P as s → P (as ++ [a]) t)
    {s t : τ} {l m : List α} (h : Path allowed s m t) (hs : P l s) : P (l ++ m) t := by
  induction h generalizing l with
  | refl s => rwa [List.append_nil]
  | silent hstep _ ih => exact ih (hsilent l _ _ hstep hs)
  | @seen s t u a as hstep _ ih =>
    have hnext := ih (hseen l s a t hstep hs)
    rwa [List.append_assoc] at hnext

/-- What can be seen of a run. -/
def shown (step : σ → ι → σ) (shows : σ → ι → List α) : σ → List ι → List α
  | _, [] => []
  | s, l :: ls => shows s l ++ shown step shows (step s l) ls

/-- From every state with the invariant `P`, a step is a path that shows the same, and it keeps
    the invariant. -/
structure Simulates (step : σ → ι → σ) (shows : σ → ι → List α) (P : σ → Prop) (abs : σ → τ)
    (allowed : System τ α) : Prop where
  kept : ∀ s l, P s → P (step s l)
  path : ∀ s l, P s → Path allowed (abs s) (shows s l) (abs (step s l))

/-- **Runs.**  A run of the machine is a path of the system. -/
theorem Simulates.run {step : σ → ι → σ} {shows : σ → ι → List α} {P : σ → Prop} {abs : σ → τ}
    (h : Simulates step shows P abs allowed) {s : σ} (ls : List ι) (hs : P s) :
    Path allowed (abs s) (shown step shows s ls) (abs (Machine.run step s ls)) := by
  induction ls generalizing s with
  | nil => exact .refl _
  | cons l ls ih => exact (h.path s l hs).append (ih (h.kept s l hs))

end Simulation
