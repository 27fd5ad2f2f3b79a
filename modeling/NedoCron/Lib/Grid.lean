import Mathlib.Data.Int.ConditionallyCompleteOrder
import Mathlib.Data.Int.Interval
import Mathlib.Data.Set.Card
import Mathlib.Order.Interval.Finset.Basic
import Mathlib.Tactic.Linarith
import Mathlib.Tactic.Ring

namespace Grid

/-!
# Counting grid points

The points of the grid `d·ℤ` in a half-open interval `(a, b]`, and how many of them satisfy
a predicate.  A loop that visits the grid points one after the other adds up exactly this
count (`count_step`), and adjacent intervals add (`count_add`).
-/

/-- The multiples of `d` in `(a, b]`. -/
noncomputable def ticks (d a b : ℤ) : Finset ℤ := (Finset.Ioc a b).filter fun m => d ∣ m

/-- The ticks are the multiples of `d` in the interval. -/
theorem mem_ticks {d a b m : ℤ} : m ∈ ticks d a b ↔ (a < m ∧ m ≤ b) ∧ d ∣ m := by
  simp [ticks]

/-- How many multiples of `d` in `(a, b]` satisfy `p`. -/
noncomputable def count (d : ℤ) (p : ℤ → Bool) (a b : ℤ) : ℕ :=
  ((ticks d a b).filter fun m => p m).card

/-- What is counted, as the size of a set. -/
theorem count_eq_ncard (d : ℤ) (p : ℤ → Bool) (a b : ℤ) :
    count d p a b = {m | (a < m ∧ m ≤ b) ∧ d ∣ m ∧ p m = true}.ncard := by
  rw [count, ← Set.ncard_coe_finset]
  congr 1
  ext m
  rw [Finset.mem_coe, Finset.mem_filter, mem_ticks, Set.mem_ofPred_eq, and_assoc]

/-- There is nothing in an empty interval. -/
theorem count_of_le {d : ℤ} {p : ℤ → Bool} {a b : ℤ} (h : b ≤ a) : count d p a b = 0 := by
  simp [count, ticks, Finset.Ioc_eq_empty_of_le h]

/-- One tick that is asked for makes the count positive. -/
theorem count_pos {d : ℤ} {p : ℤ → Bool} {a b m : ℤ} (ha : a < m) (hb : m ≤ b) (hd : d ∣ m)
    (hp : p m = true) : 0 < count d p a b :=
  Finset.card_pos.mpr ⟨m, Finset.mem_filter.mpr ⟨mem_ticks.mpr ⟨⟨ha, hb⟩, hd⟩, hp⟩⟩

/-- Nothing is counted where nothing is asked for. -/
theorem count_none {d : ℤ} {p : ℤ → Bool} (h : ∀ m, p m = false) (a b : ℤ) :
    count d p a b = 0 := by
  rw [count, Finset.filter_false_of_mem fun m _ => by rw [h m]; exact Bool.false_ne_true]
  rfl

/-- **Adjacent intervals add.** -/
theorem count_add {d : ℤ} {p : ℤ → Bool} {a b c : ℤ} (hab : a ≤ b) (hbc : b ≤ c) :
    count d p a b + count d p b c = count d p a c := by
  unfold count
  rw [← Finset.card_union_of_disjoint]
  · congr 1
    ext m
    simp only [Finset.mem_union, Finset.mem_filter, mem_ticks]
    constructor
    · rintro (⟨⟨⟨h1, h2⟩, h3⟩, h4⟩ | ⟨⟨⟨h1, h2⟩, h3⟩, h4⟩)
      · exact ⟨⟨⟨h1, by omega⟩, h3⟩, h4⟩
      · exact ⟨⟨⟨by omega, h2⟩, h3⟩, h4⟩
    · rintro ⟨⟨⟨h1, h2⟩, h3⟩, h4⟩
      by_cases hm : m ≤ b
      · exact Or.inl ⟨⟨⟨h1, hm⟩, h3⟩, h4⟩
      · exact Or.inr ⟨⟨⟨by omega, h2⟩, h3⟩, h4⟩
  · rw [Finset.disjoint_left]
    intro m hm hm'
    simp only [Finset.mem_filter, mem_ticks] at hm hm'
    omega

/-- Between two neighbouring grid points there is no other. -/
theorem ticks_neighbours {d a : ℤ} (hd : 0 < d) (ha : d ∣ a) : ticks d a (a + d) = {a + d} := by
  ext m
  rw [mem_ticks, Finset.mem_singleton]
  constructor
  · rintro ⟨⟨h1, h2⟩, k, rfl⟩
    obtain ⟨j, rfl⟩ := ha
    have h3 : j < k := by nlinarith
    have h4 : k ≤ j + 1 := by nlinarith
    obtain rfl : k = j + 1 := by omega
    ring
  · rintro rfl
    exact ⟨⟨by omega, le_refl _⟩, Int.dvd_add ha (Int.dvd_refl d)⟩

/-- **One turn of the loop.** From a grid point, the next one is counted first. -/
theorem count_step {d : ℤ} {p : ℤ → Bool} {a b : ℤ} (hd : 0 < d) (ha : d ∣ a)
    (hb : a + d ≤ b) : count d p a b = (if p (a + d) then 1 else 0) + count d p (a + d) b := by
  rw [← count_add (by omega : a ≤ a + d) hb]
  congr 1
  rw [count, ticks_neighbours hd ha, Finset.filter_singleton]
  split <;> simp

/-- A grid point strictly above another is at least one step above it. -/
theorem add_le_of_lt {d a b : ℤ} (ha : d ∣ a) (hb : d ∣ b) (hab : a < b) : a + d ≤ b := by
  have h := Int.le_of_dvd (by omega) (Int.dvd_sub hb ha)
  omega

end Grid
