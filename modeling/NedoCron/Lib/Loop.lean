import Mathlib.Data.List.Basic

/-!
# For loops that may be left early

A loop `for (i = start; test i; i = next i) body` whose body works on a state and may leave the
loop.  A body may also be undefined (`none`), as an access outside of an array is in C.  Nothing
bounds the number of turns.

* `Runs` — the complete runs, with the values whose turns went on and the value, if any, whose
  turn left the loop;
* `Runs.unique` — there is at most one run;
* `exists_runs` — there is one, and a bound on its turns, if a measure of the loop variable goes
  down in every turn that goes on;
* `Runs.relates` — what every turn does to the state, the run does to it.
-/

/-- A loop over a variable of type `ι` and a state of type `σ`. -/
structure ForLoop (σ ι : Type*) where
  /-- the condition -/
  test : ι → Bool
  /-- the body: whether the loop goes on, and the state afterwards -/
  body : ι → σ → Option (Bool × σ)
  /-- the step of the variable -/
  next : ι → ι

namespace ForLoop

variable {σ ι : Type*} {L : ForLoop σ ι}

/-- `L.Runs i s done left t`: from the value `i` and the state `s` the loop ends in the state `t`.
    The turns of the values `done` went on, and `left` is the value whose turn left the loop. -/
inductive Runs (L : ForLoop σ ι) : ι → σ → List ι → Option ι → σ → Prop
  | exit {i : ι} {s : σ} (htest : L.test i = false) : L.Runs i s [] none s
  | leave {i : ι} {s t : σ} (htest : L.test i = true) (hbody : L.body i s = some (false, t)) :
    L.Runs i s [] (some i) t
  | turn {i : ι} {s s' t : σ} {done : List ι} {left : Option ι} (htest : L.test i = true)
    (hbody : L.body i s = some (true, s')) (hrest : L.Runs (L.next i) s' done left t) :
    L.Runs i s (i :: done) left t

/-- The condition and the body are functions, so there is at most one run. -/
theorem Runs.unique {i : ι} {s t t' : σ} {done done' : List ι} {left left' : Option ι}
    (h : L.Runs i s done left t) (h' : L.Runs i s done' left' t') :
    done = done' ∧ left = left' ∧ t = t' := by
  induction h generalizing done' with
  | exit htest =>
    cases h' with
    | exit => exact ⟨rfl, rfl, rfl⟩
    | leave htest' => simp [htest] at htest'
    | turn htest' => simp [htest] at htest'
  | leave htest hbody =>
    cases h' with
    | exit htest' => simp [htest] at htest'
    | leave _ hbody' => simpa [hbody] using hbody'
    | turn _ hbody' => simp [hbody] at hbody'
  | turn htest hbody _ ih =>
    cases h' with
    | exit htest' => simp [htest] at htest'
    | leave _ hbody' => simp [hbody] at hbody'
    | turn _ hbody' hrest' =>
      obtain rfl : _ = _ := by simpa [hbody] using hbody'
      obtain ⟨rfl, rfl, rfl⟩ := ih hrest'
      exact ⟨rfl, rfl, rfl⟩

/-- **Termination.**  A body that is always defined, and a measure of the loop variable that goes
    down in every turn that goes on: the loop ends, and the measure bounds its turns. -/
theorem exists_runs (measure : ι → Nat)
    (hdefined : ∀ i s, L.test i = true → ∃ ok t, L.body i s = some (ok, t))
    (hdown : ∀ i s t, L.test i = true → L.body i s = some (true, t) →
      measure (L.next i) < measure i) (i : ι) (s : σ) :
    ∃ done left t, L.Runs i s done left t ∧ done.length ≤ measure i := by
  induction hn : measure i using Nat.strongRecOn generalizing i s with
  | _ n ih =>
    subst hn
    cases htest : L.test i with
    | false => exact ⟨[], none, s, .exit htest, Nat.zero_le _⟩
    | true =>
      obtain ⟨ok, s', hbody⟩ := hdefined i s htest
      cases ok with
      | false => exact ⟨[], some i, s', .leave htest hbody, Nat.zero_le _⟩
      | true =>
        have hlt := hdown i s s' htest hbody
        obtain ⟨done, left, t, hruns, hlength⟩ := ih _ hlt (L.next i) s' rfl
        refine ⟨i :: done, left, t, .turn htest hbody hruns, ?_⟩
        rw [List.length_cons]
        omega

/-- **Composition.**  A relation on states that holds of no turn, of the turn that leaves, and of
    one more turn in front, holds of the run. -/
theorem Runs.relates {R : List ι → σ → σ → Prop} (hexit : ∀ s, R [] s s)
    (hleave : ∀ i s t, L.body i s = some (false, t) → R [] s t)
    (hturn : ∀ i s s' done t, L.body i s = some (true, s') → R done s' t → R (i :: done) s t)
    {i : ι} {s t : σ} {done : List ι} {left : Option ι} (h : L.Runs i s done left t) :
    R done s t := by
  induction h with
  | exit _ => exact hexit _
  | leave _ hbody => exact hleave _ _ _ hbody
  | turn _ hbody _ ih => exact hturn _ _ _ _ _ hbody ih

end ForLoop
