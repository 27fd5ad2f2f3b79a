import Mathlib.Data.List.Perm.Basic
import Mathlib.Data.Int.Order.Basic
import Mathlib.Order.Bounds.Basic
import Mathlib.Order.Lattice

namespace Alarm

/-!
# Sleeping until the earliest of several deadlines

A process with many deadlines sleeps until the earliest of them, and a sleep is a bounded number
of whole ticks.

* `earliest` — the running minimum of a list, started at a bound (`isLeast_earliest`); it does not
  depend on the order of the list (`earliest_perm`);
* `ticks` — how many whole ticks to sleep (`ticks_eq_zero`), which never passes a deadline that is
  still to come (`ticks_inTime`).
-/

section Earliest

variable {α : Type*} [LinearOrder α]

/-- The earliest of a bound and of some deadlines. -/
def earliest (bound : α) (deadlines : List α) : α := deadlines.foldl min bound

@[simp] theorem earliest_nil (bound : α) : earliest bound [] = bound := rfl

@[simp] theorem earliest_cons (bound d : α) (deadlines : List α) :
    earliest bound (d :: deadlines) = earliest (min bound d) deadlines := rfl

/-- The earliest of two lists is taken one list after the other. -/
theorem earliest_append (bound : α) (deadlines more : List α) :
    earliest bound (deadlines ++ more) = earliest (earliest bound deadlines) more :=
  List.foldl_append

/-- **The running minimum is the least of all.** -/
theorem isLeast_earliest (bound : α) (deadlines : List α) :
    IsLeast {d | d = bound ∨ d ∈ deadlines} (earliest bound deadlines) := by
  induction deadlines generalizing bound with
  | nil => exact ⟨Or.inl rfl, fun d hd => by simpa using le_of_eq (hd.resolve_right (by simp)).symm⟩
  | cons a deadlines ih =>
    obtain ⟨hmem, hleast⟩ := ih (min bound a)
    constructor
    · rcases hmem with heq | hmem
      · rcases le_total bound a with hle | hle
        · exact Or.inl (heq.trans (min_eq_left hle))
        · exact Or.inr (List.mem_cons.mpr (Or.inl (heq.trans (min_eq_right hle))))
      · exact Or.inr (List.mem_cons_of_mem a hmem)
    · -- the new bound is below the old one and below the head
      have hbound : earliest (min bound a) deadlines ≤ min bound a := hleast (Or.inl rfl)
      rintro d (rfl | hd)
      · exact le_trans hbound (min_le_left d a)
      · rcases List.mem_cons.mp hd with rfl | hd
        · exact le_trans hbound (min_le_right bound d)
        · exact hleast (Or.inr hd)

/-- **The order of the deadlines does not matter.** -/
theorem earliest_perm (bound : α) {deadlines deadlines' : List α}
    (h : deadlines.Perm deadlines') : earliest bound deadlines = earliest bound deadlines' := by
  have hleast := isLeast_earliest bound deadlines
  simp only [h.mem_iff] at hleast
  exact hleast.unique (isLeast_earliest bound deadlines')

end Earliest

/-! ### Whole ticks -/

/-- The whole ticks of length `tick` from `now` until `stop`: none if it has passed, and at most
    `cap`. -/
def ticks (tick cap now stop : ℤ) : ℤ := max 0 (min cap ((stop - now) / tick))

/-- There is no tick to sleep exactly when `stop` is less than one tick away. -/
theorem ticks_eq_zero {tick cap now stop : ℤ} (htick : 0 < tick) (hcap : 0 < cap) :
    ticks tick cap now stop = 0 ↔ stop < now + tick := by
  have hlt : (stop - now) / tick < 1 ↔ stop - now < 1 * tick := Int.ediv_lt_iff_lt_mul htick
  unfold ticks
  omega

/-- **A sleep until the earliest deadline never passes a deadline to come.** -/
theorem ticks_inTime {tick cap now stop d : ℤ} (htick : 0 < tick) (hfuture : now < d)
    (hle : stop ≤ d) : now + ticks tick cap now stop * tick ≤ d := by
  have hfloor : (stop - now) / tick * tick ≤ stop - now := Int.ediv_mul_le _ (ne_of_gt htick)
  have hticks : ticks tick cap now stop ≤ max 0 ((stop - now) / tick) := by
    unfold ticks
    omega
  have hmul := Int.mul_le_mul_of_nonneg_right hticks (le_of_lt htick)
  rcases le_total ((stop - now) / tick) 0 with hneg | hpos
  · rw [max_eq_left hneg, Int.zero_mul] at hmul
    omega
  · rw [max_eq_right hpos] at hmul
    omega

end Alarm
