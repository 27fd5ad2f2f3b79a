import Mathlib.Data.List.Basic
import Mathlib.Data.Int.Basic

namespace Machine

/-!
# Runs of a labelled machine

A machine is a total step function `step : σ → ι → σ`; whatever the environment decides is
part of the label.  This file holds the rules every later invariant proof uses:

* `run_induction` — an invariant kept by every step holds after every run;
* `guarded_induction` — an invariant kept by every step that meets a guard holds after
  every run all of whose steps meet it;
* `balance` — a quantity that every step changes by a given amount is changed by a run by the
  sum of these amounts.
-/

variable {σ ι : Type*} {step : σ → ι → σ}

/-- The state after the labels `ls`, taken in order from `s`. -/
def run (step : σ → ι → σ) (s : σ) (ls : List ι) : σ := ls.foldl step s

@[simp] theorem run_nil (s : σ) : run step s [] = s := rfl

@[simp] theorem run_cons (s : σ) (l : ι) (ls : List ι) :
    run step s (l :: ls) = run step (step s l) ls := rfl

/-- A run goes on where the run before it has ended. -/
theorem run_append (s : σ) (ls ms : List ι) :
    run step s (ls ++ ms) = run step (run step s ls) ms := List.foldl_append

/-- Some run leads from `s` to `t`. -/
def Reaches (step : σ → ι → σ) (s t : σ) : Prop := ∃ ls, run step s ls = t

theorem Reaches.refl (s : σ) : Reaches step s s := ⟨[], rfl⟩

theorem Reaches.single (s : σ) (l : ι) : Reaches step s (step s l) := ⟨[l], rfl⟩

theorem Reaches.trans {s t u : σ} (h : Reaches step s t) (h' : Reaches step t u) :
    Reaches step s u := by
  obtain ⟨ls, rfl⟩ := h
  obtain ⟨ms, rfl⟩ := h'
  exact ⟨ls ++ ms, run_append s ls ms⟩

/-- Some run whose labels all satisfy `p` leads from `s` to `t`. -/
def ReachesBy (step : σ → ι → σ) (p : ι → Prop) (s t : σ) : Prop :=
  ∃ ls, (∀ l ∈ ls, p l) ∧ run step s ls = t

theorem ReachesBy.refl (p : ι → Prop) (s : σ) : ReachesBy step p s s := ⟨[], by simp, rfl⟩

theorem ReachesBy.single {p : ι → Prop} (s : σ) {l : ι} (h : p l) :
    ReachesBy step p s (step s l) := ⟨[l], by simpa using h, rfl⟩

theorem ReachesBy.trans {p : ι → Prop} {s t u : σ} (h : ReachesBy step p s t)
    (h' : ReachesBy step p t u) : ReachesBy step p s u := by
  obtain ⟨ls, hls, rfl⟩ := h
  obtain ⟨ms, hms, rfl⟩ := h'
  refine ⟨ls ++ ms, fun l hl => ?_, run_append s ls ms⟩
  rcases List.mem_append.mp hl with hl | hl
  · exact hls l hl
  · exact hms l hl

/-- A run by steps of a kind is a run. -/
theorem ReachesBy.reaches {p : ι → Prop} {s t : σ} (h : ReachesBy step p s t) :
    Reaches step s t := by
  obtain ⟨ls, -, rfl⟩ := h
  exact ⟨ls, rfl⟩

/-- Every step of the run is taken from a state, and with a label, that meet `g`. -/
def Guarded (step : σ → ι → σ) (g : σ → ι → Prop) : σ → List ι → Prop
  | _, [] => True
  | s, l :: ls => g s l ∧ Guarded step g (step s l) ls

@[simp] theorem guarded_nil (g : σ → ι → Prop) (s : σ) : Guarded step g s [] := trivial

@[simp] theorem guarded_cons (g : σ → ι → Prop) (s : σ) (l : ι) (ls : List ι) :
    Guarded step g s (l :: ls) ↔ g s l ∧ Guarded step g (step s l) ls := Iff.rfl

/-- A condition on the steps of a run, stretch by stretch. -/
theorem guarded_append (g : σ → ι → Prop) (s : σ) (ls ms : List ι) :
    Guarded step g s (ls ++ ms) ↔
      Guarded step g s ls ∧ Guarded step g (run step s ls) ms := by
  induction ls generalizing s with
  | nil => simp
  | cons l ls ih => simp only [List.cons_append, guarded_cons, run_cons, ih, and_assoc]

/-- **Guarded runs.** An invariant kept by the steps that meet the guard survives every run
    made of such steps. -/
theorem guarded_induction {P : σ → Prop} {g : σ → ι → Prop}
    (hstep : ∀ s l, g s l → P s → P (step s l)) {s : σ} {ls : List ι}
    (hg : Guarded step g s ls) (hs : P s) : P (run step s ls) := by
  induction ls generalizing s with
  | nil => exact hs
  | cons l ls ih => exact ih hg.2 (hstep s l hg.1 hs)

/-- Two conditions on the same steps. -/
theorem guarded_and {g g' : σ → ι → Prop} {s : σ} {ls : List ι} (h : Guarded step g s ls)
    (h' : Guarded step g' s ls) : Guarded step (fun s l => g s l ∧ g' s l) s ls := by
  induction ls generalizing s with
  | nil => exact guarded_nil _ s
  | cons l ls ih => exact ⟨⟨h.1, h'.1⟩, ih h.2 h'.2⟩

/-- A weaker condition on the same steps. -/
theorem guarded_mono {g g' : σ → ι → Prop} (himp : ∀ s l, g s l → g' s l) {s : σ}
    {ls : List ι} (h : Guarded step g s ls) : Guarded step g' s ls := by
  induction ls generalizing s with
  | nil => exact guarded_nil _ s
  | cons l ls ih => exact ⟨himp s l h.1, ih h.2⟩

/-- Along a run every step is taken from a state with the invariant. -/
theorem guarded_of_invariant {P : σ → Prop} (hstep : ∀ s l, P s → P (step s l)) {s : σ}
    (ls : List ι) (hs : P s) : Guarded step (fun s _ => P s) s ls := by
  induction ls generalizing s with
  | nil => exact guarded_nil _ s
  | cons l ls ih => exact ⟨hs, ih (hstep s l hs)⟩

/-- **Runs.** An invariant kept by every step survives every run. -/
theorem run_induction {P : σ → Prop} (hstep : ∀ s l, P s → P (step s l))
    {s : σ} (ls : List ι) (hs : P s) : P (run step s ls) := by
  induction ls generalizing s with
  | nil => exact hs
  | cons l ls ih => exact ih (hstep s l hs)

/-- A condition that speaks of the labels only. -/
theorem guarded_of_forall {p : ι → Prop} (s : σ) {ls : List ι} (h : ∀ l ∈ ls, p l) :
    Guarded step (fun _ l => p l) s ls := by
  induction ls generalizing s with
  | nil => exact guarded_nil _ s
  | cons l ls ih =>
    exact ⟨h l List.mem_cons_self, ih _ fun l' hl' => h l' (List.mem_cons_of_mem _ hl')⟩

/-- A guard that holds at every step of a run. -/
theorem guarded_of_split {g : σ → ι → Prop} (s : σ) {ls : List ι}
    (h : ∀ before l after, ls = before ++ l :: after → g (run step s before) l) :
    Guarded step g s ls := by
  induction ls generalizing s with
  | nil => exact guarded_nil _ s
  | cons l ls ih =>
    refine ⟨h [] l ls rfl, ih (step s l) fun before l' after heq => ?_⟩
    have hlater := h (l :: before) l' after (by rw [heq]; rfl)
    exact hlater

/-- The sum of an amount over the steps of a run. -/
def total (step : σ → ι → σ) (f : σ → ι → ℤ) : σ → List ι → ℤ
  | _, [] => 0
  | s, l :: ls => f s l + total step f (step s l) ls

/-- The total of a difference. -/
theorem total_sub (f g : σ → ι → ℤ) (s : σ) (ls : List ι) :
    total step (fun s l => f s l - g s l) s ls = total step f s ls - total step g s ls := by
  induction ls generalizing s with
  | nil => rfl
  | cons l ls ih =>
    rw [total, total, total, ih]
    omega

/-- **Balances.** A quantity that every step meeting the guard changes by the amount `f` is
    changed by the total of `f` along a run of such steps. -/
theorem balance {P : σ → Prop} {g : σ → ι → Prop} {V : σ → ℤ} {f : σ → ι → ℤ}
    (hkeep : ∀ s l, g s l → P s → P (step s l))
    (hstep : ∀ s l, g s l → P s → V (step s l) = V s + f s l) {s : σ} {ls : List ι}
    (hg : Guarded step g s ls) (hs : P s) : V (run step s ls) = V s + total step f s ls := by
  induction ls generalizing s with
  | nil => exact (Int.add_zero _).symm
  | cons l ls ih =>
    rw [run_cons, ih hg.2 (hkeep s l hg.1 hs), hstep s l hg.1 hs, total, Int.add_assoc]

end Machine
