import NedoCron.Lib.Simulation
import Mathlib.Algebra.BigOperators.Group.List.Basic
import Mathlib.Algebra.Ring.Nat

namespace SingleServer

/-!
# A server that does one thing at a time

Requests arrive in a queue and are served one after another: the server begins with a request only
when it is free, and is free again when it has finished.  The queue may be closed, and what waits in
a closed queue may be given up; it may be cut to a limit while the server is free.

* `Allowed` — the steps;
* `path_between` — between two beginnings a path shows the end of the first;
* `path_counts` — no more is begun than has arrived.
-/

variable {R S : Type*}

/-- What can be seen of the server. -/
inductive Event (R S : Type*) where
  /-- requests arrive -/
  | arrive (n : Nat)
  /-- the requests above the limit are given up -/
  | cut (n : Nat)
  /-- the server begins with a request, and gives it a name -/
  | begin (r : R)
  | finish (r : R) (status : S)
  deriving DecidableEq

/-- The queue and the server. -/
structure State (R : Type*) where
  accepting : Bool
  waiting : Nat
  serving : Option R

/-- A new server. -/
def State.initial : State R where
  accepting := false
  waiting := 0
  serving := none

/-- The steps of a server whose queue may be cut to `limit`. -/
inductive Allowed (limit : Nat) : Simulation.System (State R) (Event R S) where
  | opens (s : State R) : Allowed limit s none { s with accepting := true }
  | closes (s : State R) : Allowed limit s none { s with accepting := false }
  | arrives (s : State R) (n : Nat) (h : s.accepting = true) :
    Allowed limit s (some (.arrive n)) { s with waiting := s.waiting + n }
  | begins (s : State R) (r : R) (h : s.accepting = true) (hfree : s.serving = none)
    (hwaiting : 0 < s.waiting) :
    Allowed limit s (some (.begin r)) { s with waiting := s.waiting - 1, serving := some r }
  | finishes (s : State R) (r : R) (status : S) (h : s.serving = some r) :
    Allowed limit s (some (.finish r status)) { s with serving := none }
  | cuts (s : State R) (hfree : s.serving = none) (hlong : limit < s.waiting) :
    Allowed limit s (some (.cut (s.waiting - limit))) { s with waiting := limit }
  | givesUp (s : State R) (n : Nat) (h : s.accepting = false) (hle : n ≤ s.waiting) :
    Allowed limit s none { s with waiting := n }

/-- Whether an event is about the request that is served. -/
def Event.isService : Event R S → Bool
  | .begin _ => true
  | .finish _ _ => true
  | _ => false

/-- How many requests an event lets in. -/
def Event.arrived : Event R S → Nat
  | .arrive n => n
  | _ => 0

/-- Whether an event begins with a request. -/
def Event.isBegin : Event R S → Bool
  | .begin _ => true
  | _ => false

/-- A request that is served is served until it is finished. -/
theorem path_serving {limit : Nat} {s t : State R} {es : List (Event R S)}
    (h : Simulation.Path (Allowed limit) s es t) {r : R} (hserving : s.serving = some r) :
    t.serving = some r ∨ ∃ status, .finish r status ∈ es := by
  refine h.invariant (l := [])
    (P := fun es t => t.serving = some r ∨ ∃ status, .finish r status ∈ es)
    (fun es t u hstep ht => ?_) (fun es t e u hstep ht => ?_) (Or.inl hserving)
  · cases hstep with
    | opens => exact ht
    | closes => exact ht
    | givesUp => exact ht
  · rcases ht with ht | ⟨status, hmem⟩
    · cases hstep with
      | arrives _ n hopen => exact Or.inl ht
      | begins _ r' hopen hfree hwaiting => exact absurd (hfree.symm.trans ht) (by simp)
      | finishes _ r' status hserving' =>
        obtain rfl := Option.some.inj (hserving'.symm.trans ht)
        exact Or.inr ⟨status, by simp⟩
      | cuts _ hfree hlong => exact Or.inl ht
    · exact Or.inr ⟨status, List.mem_append_left _ hmem⟩

/-- **One at a time.**  Between the beginnings of two requests, the first is finished. -/
theorem path_between {limit : Nat} {s u : State R} {es : List (Event R S)}
    (h : Simulation.Path (Allowed limit) s es u) {as bs cs : List (Event R S)} {r r' : R}
    (hservices : es.filter Event.isService = as ++ .begin r :: (bs ++ .begin r' :: cs)) :
    ∃ status, .finish r status ∈ bs := by
  obtain ⟨es₁, es₂, rfl, -, hservices⟩ := List.filter_eq_append_iff.mp hservices
  obtain ⟨es₃, es₄, rfl, -, -, hservices⟩ := List.filter_eq_cons_iff.mp hservices
  obtain ⟨es₅, es₆, rfl, hbetween, hservices⟩ := List.filter_eq_append_iff.mp hservices
  obtain ⟨es₇, es₈, rfl, hsilent, -, -⟩ := List.filter_eq_cons_iff.mp hservices
  obtain ⟨_, _, h⟩ := h.split
  obtain ⟨_, _, h⟩ := h.split
  -- the server takes up the first request, and is free when it takes up the second
  obtain ⟨_, s₁, -, hbegins, h⟩ := h.step_of_cons
  rw [← List.append_assoc] at h
  obtain ⟨s₂, hpath, h⟩ := h.split
  obtain ⟨s₃, _, hpath', hbegins', -⟩ := h.step_of_cons
  have hserving : s₁.serving = some r := by
    cases hbegins with
    | begins => rfl
  have hfree : s₃.serving = none := by
    cases hbegins' with
    | begins _ _ hopen hfree hwaiting => exact hfree
  rcases path_serving (hpath.append hpath') hserving with hstill | ⟨status, hmem⟩
  · exact absurd (hfree.symm.trans hstill) (by simp)
  · rw [List.append_nil] at hmem
    rcases List.mem_append.mp hmem with hmem | hmem
    · exact ⟨status, hbetween ▸ List.mem_filter.mpr ⟨hmem, rfl⟩⟩
    · exact absurd rfl (hsilent _ hmem)

/-- **No more is begun than has arrived.** -/
theorem path_counts {limit : Nat} {s t : State R} {es : List (Event R S)}
    (h : Simulation.Path (Allowed limit) s es t) :
    es.countP Event.isBegin + t.waiting ≤ s.waiting + (es.map Event.arrived).sum := by
  refine h.invariant (l := [])
    (P := fun es t => es.countP Event.isBegin + t.waiting ≤ s.waiting + (es.map Event.arrived).sum)
    (fun es t u hstep ht => ?_) (fun es t e u hstep ht => ?_) (by simp)
  · cases hstep with
    | opens => exact ht
    | closes => exact ht
    | givesUp _ n hclosed hle => exact le_trans (Nat.add_le_add_left hle _) ht
  · rw [List.countP_append, List.map_append, List.sum_append]
    cases hstep with
    | arrives _ n hopen => simp [Event.isBegin, Event.arrived]; omega
    | begins _ r hopen hfree hwaiting => simp [Event.isBegin, Event.arrived]; omega
    | finishes _ r status hserving => simp [Event.isBegin, Event.arrived]; omega
    | cuts _ hfree hlong => simp [Event.isBegin, Event.arrived]; omega

end SingleServer
