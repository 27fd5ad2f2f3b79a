import Mathlib.Data.List.Basic
import Mathlib.Data.Int.Order.Basic

namespace Ticker

/-!
# A timer that is armed again when it fires

A timer looks at the clock now and then.  The first reading arms it a period ahead; a reading that
has reached its time makes it fire and arms it again, a period ahead of that reading, so that late
readings do not pile up.

* `read`, `due` — one reading;
* `firings` — the readings of a run at which the timer fires;
* `firings_pairwise`, `le_of_mem_firings` — they are a period apart, whatever the clock does.
-/

/-- The armed time after a reading of the clock. -/
def read (period : ℤ) (armed : Option ℤ) (now : ℤ) : Option ℤ :=
  match armed with
  | none => some (now + period)
  | some next => if next ≤ now then some (now + period) else some next

/-- The reading has reached the armed time. -/
def due (armed : Option ℤ) (now : ℤ) : Bool := armed.any fun next => next ≤ now

/-- The readings at which the timer fires. -/
def firings (period : ℤ) : Option ℤ → List ℤ → List ℤ
  | _, [] => []
  | armed, now :: readings =>
    (if due armed now then [now] else []) ++ firings period (read period armed now) readings

/-- **No firing before the armed time.** -/
theorem le_of_mem_firings {period next t : ℤ} (hperiod : 0 ≤ period) {readings : List ℤ}
    (h : t ∈ firings period (some next) readings) : next ≤ t := by
  induction readings generalizing next with
  | nil => exact absurd h List.not_mem_nil
  | cons now readings ih =>
    rw [firings, read, due, Option.any_some] at h
    by_cases hle : next ≤ now
    · rw [if_pos (decide_eq_true hle), if_pos hle, List.singleton_append] at h
      rcases List.mem_cons.mp h with rfl | h
      · exact hle
      · have hnext := ih h
        omega
    · rw [if_neg (by simpa using hle), if_neg hle, List.nil_append] at h
      exact ih h

/-- A timer that was not armed fires a period after its first reading at the earliest. -/
theorem le_of_mem_firings_none {period now t : ℤ} (hperiod : 0 ≤ period) {readings : List ℤ}
    (h : t ∈ firings period none (now :: readings)) : now + period ≤ t :=
  le_of_mem_firings hperiod (by simpa [firings, due, read] using h)

/-- **Any two firings are a period apart.** -/
theorem firings_pairwise {period : ℤ} (hperiod : 0 ≤ period) (armed : Option ℤ)
    (readings : List ℤ) : (firings period armed readings).Pairwise fun s t => s + period ≤ t := by
  induction readings generalizing armed with
  | nil => exact List.Pairwise.nil
  | cons now readings ih =>
    rw [firings]
    by_cases hdue : due armed now = true
    · rw [if_pos hdue, List.singleton_append]
      refine List.Pairwise.cons (fun t ht => ?_) (ih _)
      -- the timer was armed a period ahead of the reading at which it fired
      have hread : read period armed now = some (now + period) := by
        cases armed with
        | none => rfl
        | some next =>
          have hle : next ≤ now := by simpa [due] using hdue
          rw [read, if_pos hle]
      rw [hread] at ht
      exact le_of_mem_firings hperiod ht
    · rw [if_neg hdue, List.nil_append]
      exact ih _

end Ticker
