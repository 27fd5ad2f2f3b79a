import Mathlib.Order.Basic
import Mathlib.Order.WellFounded

namespace LeadsTo

/-!
# Progress along an infinite run

A run is looked at at the times 0, 1, 2 and so on; a predicate on times says what holds of the
state and of the step at that time.

* `Leads p q` — whenever `p` holds, `q` holds then or later;
* `leads_of_left` — what is kept until `q`, and not kept forever, leads to `q`;
* `leads_of_rank` — what leads to `q` or to a smaller rank leads to `q`;
* `grows_past` — what grows again and again is not bounded.
-/

variable {p q : Nat → Prop}

/-- Whenever `p` holds, `q` holds at that time or later. -/
def Leads (p q : Nat → Prop) : Prop := ∀ n, p n → ∃ m, n ≤ m ∧ q m

/-- What follows at once is led to. -/
theorem leads_of_imp (h : ∀ n, p n → q n) : Leads p q := fun n hn => ⟨n, Nat.le_refl n, h n hn⟩

/-- What is kept until `q` is kept forever if `q` never comes. -/
theorem kept_forever (hkeep : ∀ n, p n → p (n + 1) ∨ q (n + 1)) {n : Nat} (hn : p n)
    (hnever : ∀ m, n ≤ m → ¬q m) : ∀ m, n ≤ m → p m := by
  intro m hm
  induction hm with
  | refl => exact hn
  | step hm ih => exact (hkeep _ ih).resolve_right (hnever _ (Nat.le_succ_of_le hm))

/-- **What is kept until `q`, and not kept forever, leads to `q`.** -/
theorem leads_of_left (hkeep : ∀ n, p n → p (n + 1) ∨ q (n + 1))
    (hleft : ∀ n, ¬∀ m, n ≤ m → p m) : Leads p q := by
  intro n hn
  by_contra hnever
  exact hleft n (kept_forever hkeep hn fun m hm hq => hnever ⟨m, hm, hq⟩)

/-- **Ranks.**  What leads to `q` or to a smaller rank leads to `q`, if ranks are well founded. -/
theorem leads_of_rank {α : Type*} [Preorder α] [WellFoundedLT α] (rank : Nat → α)
    (h : ∀ a, Leads (fun n => p n ∧ rank n = a) fun n => q n ∨ (p n ∧ rank n < a)) :
    Leads p q := by
  have hall : ∀ a, Leads (fun n => p n ∧ rank n = a) q := by
    intro a
    induction a using WellFoundedLT.induction with
    | ind a ih =>
      intro n hn
      obtain ⟨m, hnm, hq | ⟨hp, hlt⟩⟩ := h a n hn
      · exact ⟨m, hnm, hq⟩
      · obtain ⟨l, hml, hl⟩ := ih (rank m) hlt m ⟨hp, rfl⟩
        exact ⟨l, Nat.le_trans hnm hml, hl⟩
  exact fun n hn => hall (rank n) n ⟨hn, rfl⟩

/-- **What grows again and again grows past every bound.** -/
theorem grows_past {f : Nat → Int} {n : Nat} (h : ∀ m, n ≤ m → ∃ l, m ≤ l ∧ f m < f l)
    (b : Int) : ∃ l, n ≤ l ∧ b < f l := by
  have hstairs : ∀ i : Nat, ∃ l, n ≤ l ∧ f n + i ≤ f l := by
    intro i
    induction i with
    | zero => exact ⟨n, Nat.le_refl n, by omega⟩
    | succ i ih =>
      obtain ⟨l, hl, hle⟩ := ih
      obtain ⟨l', hl', hlt⟩ := h l hl
      exact ⟨l', Nat.le_trans hl hl', by omega⟩
  obtain ⟨l, hl, hle⟩ := hstairs (b - f n + 1).toNat
  exact ⟨l, hl, by omega⟩

end LeadsTo
