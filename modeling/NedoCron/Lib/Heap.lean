import Mathlib.Data.List.Basic
import Mathlib.Data.Option.Basic
import Mathlib.Data.Set.Card
import Mathlib.Logic.Function.Basic

namespace Heap

/-!
# Programs over a heap

Programs that allocate, read, write and free blocks, over any type of blocks.  A program is
undefined (`none`) as soon as it touches a block that is not in use: a read or a write after the
free, or a second free, has no result.

* `Assertion` — what is said of the blocks in use, with `pointsTo` and the separating `sep`;
* `Triple` — from every heap with the precondition the program is defined, and ends with the
  postcondition;
* `Within`, `Counted`, `outside` — the blocks of a region, how many there are, and the others;
* `Tidy` — the program returns a given value and leaves the assertion it was given intact;
* `Refines` — a program over a heap computes what a program without one computes.

The rules are stated for an arbitrary assertion about the rest of the heap, which is the frame.
-/

/-- The blocks in use, by their addresses. -/
abbrev Blocks (β : Type) := Nat → Option β

/-- A heap: the blocks in use, all of them below the next address. -/
structure State (β : Type) where
  blocks : Blocks β
  next : Nat
  fresh : ∀ p, next ≤ p → blocks p = none

variable {β α γ σ : Type}

/-- A block in use lies below the next address. -/
theorem State.lt_next {h : State β} {p : Nat} {b : β} (hp : h.blocks p = some b) : p < h.next := by
  by_contra hle
  rw [h.fresh p (by omega)] at hp
  cases hp

/-! ### Programs -/

/-- A program over a heap; `none` is undefined behaviour. -/
abbrev Prog (β α : Type) := StateT (State β) Option α

/-- Undefined behaviour. -/
def undefined : Prog β α := fun _ => none

/-- Take the next address for a block. -/
def alloc (b : β) : Prog β Nat := fun h =>
  some (h.next,
    { blocks := Function.update h.blocks h.next (some b)
      next := h.next + 1
      fresh := fun q hq => by
        rw [Function.update_of_ne (by omega)]
        exact h.fresh q (by omega) })

/-- Read a block. -/
def load (p : Nat) : Prog β β := fun h => (h.blocks p).map fun b => (b, h)

/-- Replace what an address holds. -/
def State.set (h : State β) (p : Nat) (b : Option β) (hp : p < h.next) : State β where
  blocks := Function.update h.blocks p b
  next := h.next
  fresh q hq := by
    rw [Function.update_of_ne (by omega)]
    exact h.fresh q hq

/-- Overwrite a block. -/
def store (p : Nat) (b : β) : Prog β Unit := fun h =>
  match hp : h.blocks p with
  | none => none
  | some _ => some ((), h.set p (some b) (State.lt_next hp))

/-- Free a block. -/
def free (p : Nat) : Prog β Unit := fun h =>
  match hp : h.blocks p with
  | none => none
  | some _ => some ((), h.set p none (State.lt_next hp))

/-- Free a whole region, the blocks that pass a test. -/
def release (region : β → Bool) : Prog β Unit := fun h =>
  some ((),
    { blocks := fun p => (h.blocks p).filter fun b => !region b
      next := h.next
      fresh := fun q hq => by rw [h.fresh q hq]; rfl })

/-! ### Assertions -/

/-- What is said of the blocks in use. -/
abbrev Assertion (β : Type) := Blocks β → Prop

/-- No block is in use. -/
def emp : Assertion β := fun f => f = fun _ => none

/-- One block is in use. -/
def pointsTo (p : Nat) (b : β) : Assertion β :=
  fun f => f = Function.update (fun _ => none) p (some b)

/-- The blocks `h` are those of `f` and those of `g`, which share no address. -/
def Joins (f g h : Blocks β) : Prop := ∀ p, (f p = none ∧ h p = g p) ∨ (g p = none ∧ h p = f p)

/-- Separating conjunction. -/
def sep (P Q : Assertion β) : Assertion β := fun h => ∃ f g, Joins f g h ∧ P f ∧ Q g

theorem Joins.symm {f g h : Blocks β} (hj : Joins f g h) : Joins g f h := fun p => (hj p).symm

/-- A block of the first part is in the whole heap. -/
theorem Joins.left {f g h : Blocks β} (hj : Joins f g h) {p : Nat} {b : β} (hp : f p = some b) :
    h p = some b := by
  rcases hj p with ⟨hnone, -⟩ | ⟨-, heq⟩
  · rw [hp] at hnone
    cases hnone
  · rw [heq, hp]

theorem Joins.right {f g h : Blocks β} (hj : Joins f g h) {p : Nat} {b : β} (hp : g p = some b) :
    h p = some b := hj.symm.left hp

/-- The parts share no address. -/
theorem Joins.disjoint {f g h : Blocks β} (hj : Joins f g h) {p : Nat} {b : β} (hp : f p = some b) :
    g p = none := by
  rcases hj p with ⟨hnone, -⟩ | ⟨hnone, -⟩
  · rw [hp] at hnone
    cases hnone
  · exact hnone

/-- Parts can be regrouped. -/
theorem Joins.assoc {f g k i h : Blocks β} (hi : Joins f g i) (hh : Joins i k h) :
    ∃ j, Joins g k j ∧ Joins f j h := by
  -- the second and the third part, with the second first
  refine ⟨fun p => (g p).or (k p), fun p => ?_, fun p => ?_⟩
  · dsimp only
    rcases hi p with ⟨hf, hip⟩ | ⟨hg, hip⟩ <;> rcases hh p with ⟨hnone, hp⟩ | ⟨hk, hp⟩
    · left
      rw [← hip, hnone]
      exact ⟨rfl, Option.none_or⟩
    · right
      rw [hk]
      exact ⟨rfl, Option.or_none⟩
    · left
      rw [hg]
      exact ⟨rfl, Option.none_or⟩
    · left
      rw [hg]
      exact ⟨rfl, Option.none_or⟩
  · dsimp only
    rcases hi p with ⟨hf, hip⟩ | ⟨hg, hip⟩ <;> rcases hh p with ⟨hnone, hp⟩ | ⟨hk, hp⟩
    · left
      rw [← hip, hnone, hp]
      exact ⟨hf, rfl⟩
    · left
      rw [hk, hp, hip, Option.or_none]
      exact ⟨hf, rfl⟩
    · left
      rw [hg, hp, ← hip, hnone]
      exact ⟨rfl, rfl⟩
    · right
      rw [hg, hk, hp, hip]
      exact ⟨rfl, rfl⟩

theorem sep_comm (P Q : Assertion β) : sep P Q = sep Q P := by
  funext h
  exact propext ⟨fun ⟨f, g, hj, hP, hQ⟩ => ⟨g, f, hj.symm, hQ, hP⟩,
    fun ⟨f, g, hj, hQ, hP⟩ => ⟨g, f, hj.symm, hP, hQ⟩⟩

theorem sep_assoc (P Q R : Assertion β) : sep (sep P Q) R = sep P (sep Q R) := by
  funext h
  refine propext ⟨?_, ?_⟩
  · rintro ⟨i, k, hh, ⟨f, g, hi, hP, hQ⟩, hR⟩
    obtain ⟨j, hj, hh'⟩ := hi.assoc hh
    exact ⟨f, j, hh', hP, g, k, hj, hQ, hR⟩
  · rintro ⟨f, j, hh, hP, g, k, hj, hQ, hR⟩
    obtain ⟨i, hi, hh'⟩ := hj.symm.assoc hh.symm
    exact ⟨i, k, hh'.symm, ⟨f, g, hi.symm, hP, hQ⟩, hR⟩

theorem sep_left_comm (P Q R : Assertion β) : sep P (sep Q R) = sep Q (sep P R) := by
  rw [← sep_assoc, sep_comm P Q, sep_assoc]

/-- An empty part adds nothing. -/
theorem emp_sep (P : Assertion β) : sep emp P = P := by
  funext h
  refine propext ⟨?_, fun hP => ⟨_, h, fun p => Or.inl ⟨rfl, rfl⟩, rfl, hP⟩⟩
  rintro ⟨f, g, hj, rfl, hP⟩
  have hg : h = g := by
    funext p
    rcases hj p with ⟨-, hp⟩ | ⟨hg, hp⟩
    · exact hp
    · rw [hp, hg]
  rw [hg]
  exact hP

/-- Under `P` the address `p` holds the block `b`. -/
def Holds (P : Assertion β) (p : Nat) (b : β) : Prop := ∀ f, P f → f p = some b

/-- One block, in the heap of that block. -/
theorem holds_pointsTo (p : Nat) (b : β) : Holds (pointsTo p b) p b := by
  rintro f rfl
  exact Function.update_self ..

/-- What a part holds the whole holds; the part is the first. -/
theorem Holds.left {P : Assertion β} {p : Nat} {b : β} (h : Holds P p b) (Q : Assertion β) :
    Holds (sep P Q) p b := by
  rintro f ⟨g, k, hj, hg, -⟩
  exact hj.left (h g hg)

theorem Holds.right {Q : Assertion β} {p : Nat} {b : β} (h : Holds Q p b) (P : Assertion β) :
    Holds (sep P Q) p b := by
  rintro f ⟨g, k, hj, -, hk⟩
  exact hj.right (h k hk)

/-- One block more is an update. -/
theorem Joins.eq_update {p : Nat} {b : β} {g h : Blocks β}
    (hj : Joins (Function.update (fun _ => none) p (some b)) g h) :
    h = Function.update g p (some b) := by
  funext q
  by_cases hq : q = p
  · subst hq
    rw [Function.update_self]
    exact hj.left (Function.update_self ..)
  · rw [Function.update_of_ne hq]
    rcases hj q with ⟨-, heq⟩ | ⟨hg, heq⟩
    · exact heq
    · rw [heq, hg, Function.update_of_ne hq]

/-- A heap is one of its blocks and the rest. -/
theorem exactly_split {f : Blocks β} {p : Nat} {b : β} (hp : f p = some b) :
    (fun g => g = f) = sep (pointsTo p b) fun g => g = Function.update f p none := by
  funext h
  refine propext ⟨?_, ?_⟩
  · rintro rfl
    refine ⟨_, _, fun q => ?_, rfl, rfl⟩
    by_cases hq : q = p
    · subst hq
      right
      rw [Function.update_self, Function.update_self]
      exact ⟨rfl, hp⟩
    · left
      rw [Function.update_of_ne hq, Function.update_of_ne hq]
      exact ⟨rfl, rfl⟩
  · rintro ⟨f', g, hj, rfl, rfl⟩
    rw [hj.eq_update, Function.update_idem]
    exact Function.update_eq_self_iff.mpr hp.symm

/-! ### Regions -/

section Regions

variable {region : β → Bool} {P Q : Assertion β} {m n : Nat}

/-- All blocks are in the region. -/
def Within (region : β → Bool) (P : Assertion β) : Prop :=
  ∀ f, P f → ∀ p b, f p = some b → region b = true

/-- The addresses of the blocks in the region. -/
def addresses (region : β → Bool) (f : Blocks β) : Set Nat :=
  {p | ∃ b, f p = some b ∧ region b = true}

/-- So many blocks are in the region. -/
def Counted (region : β → Bool) (P : Assertion β) (n : Nat) : Prop :=
  ∀ f, P f → (addresses region f).Finite ∧ (addresses region f).ncard = n

/-- The blocks outside the region. -/
def outside (region : β → Bool) (f : Blocks β) : Blocks β := fun p =>
  (f p).filter fun b => !region b

theorem within_emp : Within region emp := by
  rintro f rfl p b hp
  cases hp

/-- One block of the region. -/
theorem within_pointsTo {p : Nat} {b : β} (hb : region b = true) :
    Within region (pointsTo p b) := by
  rintro f rfl q c hq
  by_cases h : q = p
  · subst h
    rw [Function.update_self] at hq
    rw [← Option.some.inj hq]
    exact hb
  · rw [Function.update_of_ne h] at hq
    cases hq

/-- Two parts within a region. -/
theorem Within.sep (hP : Within region P) (hQ : Within region Q) : Within region (sep P Q) := by
  rintro h ⟨f, g, hj, hf, hg⟩ p b hp
  rcases hj p with ⟨-, heq⟩ | ⟨-, heq⟩
  · exact hQ g hg p b (heq.symm.trans hp)
  · exact hP f hf p b (heq.symm.trans hp)

theorem counted_emp : Counted region emp 0 := by
  rintro f rfl
  have hnone : addresses region (fun _ => none) = ∅ := by
    ext p
    simp [addresses]
  rw [hnone]
  exact ⟨Set.finite_empty, Set.ncard_empty _⟩

/-- One block of the region. -/
theorem counted_pointsTo {p : Nat} {b : β} (hb : region b = true) :
    Counted region (pointsTo p b) 1 := by
  rintro f rfl
  have hone : addresses region (Function.update (fun _ => none) p (some b)) = {p} := by
    ext q
    by_cases h : q = p
    · subst h
      simp [addresses, hb]
    · simp [addresses, h]
  rw [hone]
  exact ⟨Set.finite_singleton p, Set.ncard_singleton p⟩

/-- **Counts add up**, since the parts share no address. -/
theorem Counted.sep (hP : Counted region P m) (hQ : Counted region Q n) :
    Counted region (sep P Q) (m + n) := by
  rintro h ⟨f, g, hj, hf, hg⟩
  -- an address of the whole is one of either part, and of one only
  obtain ⟨hfinite, hcount⟩ := hP f hf
  obtain ⟨hfinite', hcount'⟩ := hQ g hg
  have hunion : addresses region h = addresses region f ∪ addresses region g := by
    ext p
    constructor
    · rintro ⟨b, hb, hregion⟩
      rcases hj p with ⟨-, heq⟩ | ⟨-, heq⟩
      · exact Or.inr ⟨b, heq.symm.trans hb, hregion⟩
      · exact Or.inl ⟨b, heq.symm.trans hb, hregion⟩
    · rintro (⟨b, hb, hregion⟩ | ⟨b, hb, hregion⟩)
      · exact ⟨b, hj.left hb, hregion⟩
      · exact ⟨b, hj.right hb, hregion⟩
  have hdisjoint : Disjoint (addresses region f) (addresses region g) := by
    rw [Set.disjoint_left]
    rintro p ⟨b, hb, -⟩ ⟨c, hc, -⟩
    rw [hj.disjoint hb] at hc
    cases hc
  rw [hunion]
  refine ⟨hfinite.union hfinite', ?_⟩
  rw [Set.ncard_union_eq hdisjoint hfinite hfinite', hcount, hcount']

/-- Blocks of other regions do not count. -/
theorem counted_zero (h : Within (fun b => !region b) P) : Counted region P 0 := by
  intro f hf
  have hnone : addresses region f = ∅ := by
    ext p
    refine ⟨?_, fun hp => absurd hp (Set.notMem_empty p)⟩
    rintro ⟨b, hb, hregion⟩
    have hother : (!region b) = true := h f hf p b hb
    rw [hregion] at hother
    cases hother
  rw [hnone]
  exact ⟨Set.finite_empty, Set.ncard_empty _⟩

/-- What lies outside a region. -/
theorem outside_eq_some {f : Blocks β} {p : Nat} {b : β} :
    outside region f p = some b ↔ f p = some b ∧ region b = false := by
  unfold outside
  rw [Option.filter_eq_some_iff, Bool.not_eq_true']

/-- **A heap of blocks in the region and blocks outside** has the latter outside. -/
theorem outside_joins {f g h : Blocks β} (hj : Joins f g h) (hP : Within region P) (hf : P f)
    (hQ : Within (fun b => !region b) Q) (hg : Q g) : outside region h = g := by
  funext p
  rw [outside]
  rcases hj p with ⟨-, heq⟩ | ⟨hnone, heq⟩
  · rw [heq]
    cases hp : g p with
    | none => rfl
    | some b => rw [Option.filter_some, if_pos (hQ g hg p b hp)]
  · rw [heq, hnone]
    cases hp : f p with
    | none => rfl
    | some b =>
      rw [Option.filter_some, hP f hf p b hp]
      rfl

end Regions

/-! ### Triples -/

/-- From every heap with the precondition the program is defined, and what it returns and leaves
    meets the postcondition. -/
def Triple (P : Assertion β) (m : Prog β α) (Q : α → Assertion β) : Prop :=
  ∀ h : State β, P h.blocks → ∃ a h', m h = some (a, h') ∧ Q a h'.blocks

section Rules

variable {P P' : Assertion β} {Q Q' : α → Assertion β} {R : γ → Assertion β} {m : Prog β α}

theorem triple_pure {a : α} (h : ∀ f, P f → Q a f) : Triple P (pure a) Q :=
  fun s hs => ⟨a, s, rfl, h _ hs⟩

/-- One program after the other. -/
theorem triple_bind {k : α → Prog β γ} (hm : Triple P m Q) (hk : ∀ a, Triple (Q a) (k a) R) :
    Triple P (m >>= k) R := by
  intro h hP
  obtain ⟨a, h', hrun, hQ⟩ := hm h hP
  obtain ⟨c, h'', hrun', hR⟩ := hk a h' hQ
  refine ⟨c, h'', ?_, hR⟩
  show (m h).bind (fun r => k r.1 r.2) = _
  rw [hrun]
  exact hrun'

/-- A triple with a weaker postcondition. -/
theorem triple_post (hm : Triple P m Q) (h : ∀ a f, Q a f → Q' a f) : Triple P m Q' := by
  intro s hs
  obtain ⟨a, s', hrun, hQ⟩ := hm s hs
  exact ⟨a, s', hrun, h a _ hQ⟩

/-- A triple with a stronger precondition. -/
theorem triple_pre (hm : Triple P' m Q) (h : ∀ f, P f → P' f) : Triple P m Q :=
  fun s hs => hm s (h _ hs)

/-- A fact that the precondition carries. -/
theorem triple_of_fact {φ : Prop} (hm : φ → Triple P m Q) : Triple (fun f => φ ∧ P f) m Q :=
  fun s hs => hm hs.1 s hs.2

/-- The rule for a precondition with an unknown: the program meets its triple for each value. -/
theorem triple_exists {ι : Type} {S : ι → Assertion β} (hm : ∀ i, Triple (S i) m Q) :
    Triple (fun f => ∃ i, S i f) m Q :=
  fun s hs => hs.elim fun i hi => hm i s hi

/-- A new block is added to the heap that is there. -/
theorem triple_alloc (b : β) : Triple P (alloc b) fun p => sep (pointsTo p b) P := by
  intro h hP
  refine ⟨h.next, _, rfl, _, h.blocks, fun p => ?_, rfl, hP⟩
  by_cases hp : p = h.next
  · subst hp
    right
    refine ⟨h.fresh _ (Nat.le_refl _), ?_⟩
    show Function.update h.blocks h.next (some b) h.next = _
    rw [Function.update_self, Function.update_self]
  · left
    exact ⟨Function.update_of_ne hp _ _, Function.update_of_ne hp _ _⟩

/-- Reading a block that is in use. -/
theorem load_eq {h : State β} {p : Nat} {b : β} (hp : h.blocks p = some b) :
    load p h = some (b, h) := by
  rw [load, hp]
  rfl

/-- Writing a block that is in use. -/
theorem store_eq {h : State β} {p : Nat} {b : β} (hp : h.blocks p = some b) (b' : β) :
    store p b' h = some ((), h.set p (some b') (State.lt_next hp)) := by
  unfold store
  split
  · rename_i hnone
    rw [hp] at hnone
    cases hnone
  · rfl

/-- Giving back a block that is in use. -/
theorem free_eq {h : State β} {p : Nat} {b : β} (hp : h.blocks p = some b) :
    free p h = some ((), h.set p none (State.lt_next hp)) := by
  unfold free
  split
  · rename_i hnone
    rw [hp] at hnone
    cases hnone
  · rfl

/-- What is left of `p ↦ b` and a frame after `p` has been given other contents. -/
theorem Joins.update {p : Nat} {b : β} {g h : Blocks β}
    (hj : Joins (Function.update (fun _ => none) p (some b)) g h) (c : Option β) :
    Joins (Function.update (fun _ => none) p c) g (Function.update h p c) := by
  intro q
  by_cases hq : q = p
  · subst hq
    right
    refine ⟨hj.disjoint (Function.update_self ..), ?_⟩
    rw [Function.update_self, Function.update_self]
  · left
    rw [Function.update_of_ne hq, Function.update_of_ne hq]
    rcases hj q with ⟨-, heq⟩ | ⟨hg, heq⟩
    · exact ⟨rfl, heq⟩
    · rw [Function.update_of_ne hq] at heq
      exact ⟨rfl, by rw [heq, hg]⟩

/-- A store replaces the block and nothing else. -/
theorem triple_store (p : Nat) (b b' : β) :
    Triple (sep (pointsTo p b) P) (store p b') fun _ => sep (pointsTo p b') P := by
  rintro h ⟨f, g, hj, rfl, hP⟩
  exact ⟨(), _, store_eq (hj.left (Function.update_self ..)) b', _, g, hj.update (some b'), rfl, hP⟩

/-- Giving a block back leaves the rest of the heap. -/
theorem triple_free (p : Nat) (b : β) :
    Triple (sep (pointsTo p b) P) (free p) fun _ => P := by
  rintro h ⟨f, g, hj, rfl, hP⟩
  refine ⟨(), _, free_eq (hj.left (Function.update_self ..)), ?_⟩
  have hleft := hj.update none
  rw [Function.update_eq_self_iff.mpr rfl] at hleft
  have hg : Function.update h.blocks p none = g := by
    funext q
    rcases hleft q with ⟨-, heq⟩ | ⟨hg, heq⟩
    · exact heq
    · rw [heq, hg]
  show P (Function.update h.blocks p none)
  rw [hg]
  exact hP

/-- **A region is freed as a whole.** -/
theorem triple_release (region : β → Bool) :
    Triple (fun f => P fun p => (f p).filter fun b => !region b) (release region) fun _ => P :=
  fun _ hP => ⟨(), _, rfl, hP⟩

end Rules

/-! ### Programs that leave the heap as it was -/

/-- The program returns `v`, and leaves what was said of the heap intact. -/
def Tidy (P : Assertion β) (m : Prog β α) (v : α) : Prop := Triple P m fun a f => a = v ∧ P f

section Tidy

variable {P : Assertion β} {m : Prog β α} {v : α} {w : γ} {Q : γ → Assertion β}

theorem tidy_pure (P : Assertion β) (v : α) : Tidy P (pure v) v := triple_pure fun _ h => ⟨rfl, h⟩

/-- Reading a block the assertion knows of. -/
theorem tidy_load {p : Nat} {b : β} (h : Holds P p b) : Tidy P (load p) b :=
  fun s hs => ⟨b, s, load_eq (h _ hs), rfl, hs⟩

/-- A tidy program and what follows it. -/
theorem Tidy.then_triple {k : α → Prog β γ} (hm : Tidy P m v) (hk : Triple P (k v) Q) :
    Triple P (m >>= k) Q := by
  refine triple_bind hm fun a => triple_of_fact ?_
  rintro rfl
  exact hk

theorem Tidy.bind {k : α → Prog β γ} (hm : Tidy P m v) (hk : Tidy P (k v) w) :
    Tidy P (m >>= k) w := hm.then_triple hk

end Tidy

/-! ### Refinement of programs without a heap -/

/-- The program `g` over a heap, with a state of its own, returns and ends in the state that `f`
    does; it is given the heap with `P` and leaves it with `Q`. -/
def Refines (P Q : Assertion β) (g : StateT σ (Prog β) α) (f : StateM σ α) : Prop :=
  ∀ s, Triple P (g.run s) fun r b => r = f.run s ∧ Q b

/-- A program without a heap, among those with one. -/
def liftState (f : StateM σ α) : StateT σ (Prog β) α := fun s => pure (f.run s)

/-- A program over the heap alone, among those with a state. -/
def liftHeap (m : Prog β α) : StateT σ (Prog β) α := fun s => m >>= fun a => pure (a, s)

section Refines

variable {P Q R : Assertion β} {f : StateM σ α} {g : StateT σ (Prog β) α}

theorem refines_pure {a : α} (h : ∀ b, P b → Q b) :
    Refines P Q (pure a : StateT σ (Prog β) α) (pure a) :=
  fun _ => triple_pure fun b hb => ⟨rfl, h b hb⟩

theorem refines_lift (P : Assertion β) (f : StateM σ α) : Refines P P (liftState f) f :=
  fun _ => triple_pure fun _ hb => ⟨rfl, hb⟩

theorem refines_get (P : Assertion β) :
    Refines P P (get : StateT σ (Prog β) σ) (get : StateM σ σ) :=
  fun _ => triple_pure fun _ hb => ⟨rfl, hb⟩

/-- The rule for one program after the other. -/
theorem refines_bind {l : α → StateM σ γ} {k : α → StateT σ (Prog β) γ} (hg : Refines P R g f)
    (hk : ∀ a, Refines R Q (k a) (l a)) : Refines P Q (g >>= k) (f >>= l) := by
  intro s
  show Triple P (g.run s >>= fun r => (k r.1).run r.2) _
  refine triple_bind (hg s) fun r => triple_of_fact ?_
  rintro rfl
  exact hk _ _

/-- A step of the heap leaves the state alone. -/
theorem run_liftHeap_bind (m : Prog β γ) (k : γ → StateT σ (Prog β) α) (s : σ) :
    (liftHeap m >>= k).run s = m >>= fun c => (k c).run s := by
  funext h
  show ((m h).bind fun r => some ((r.1, s), r.2)).bind (fun r => k r.1.1 r.1.2 r.2) =
    (m h).bind fun r => k r.1 s r.2
  cases m h <;> rfl

/-- A step on the heap that the other program does not make. -/
theorem refines_step {m : Prog β γ} {S : γ → Assertion β} {k : γ → StateT σ (Prog β) α}
    (hm : Triple P m S) (hk : ∀ c, Refines (S c) Q (k c) f) :
    Refines P Q (liftHeap m >>= k) f := by
  intro s
  rw [run_liftHeap_bind]
  exact triple_bind hm fun c => hk c s

/-- A tidy program and what follows it. -/
theorem Tidy.then_refines {m : Prog β γ} {v : γ} {k : γ → StateT σ (Prog β) α} (hm : Tidy P m v)
    (hk : Refines P Q (k v) f) : Refines P Q (liftHeap m >>= k) f := by
  refine refines_step hm fun c s => triple_of_fact ?_
  rintro rfl
  exact hk s

/-- A last step on the heap, after which the value is returned. -/
theorem Refines.finally {m : Prog β Unit} (hg : Refines P R g f)
    (hm : Triple R m fun _ => Q) :
    Refines P Q (g >>= fun a => liftHeap m >>= fun _ => pure a) f := by
  have h := refines_bind (l := pure) hg fun a =>
    refines_step (k := fun _ => pure a) (f := pure a) hm fun _ => refines_pure fun _ hb => hb
  rwa [bind_pure] at h

/-- The rule for a precondition with an unknown. -/
theorem refines_exists {ι : Type} {S : ι → Assertion β} (h : ∀ i, Refines (S i) Q g f) :
    Refines (fun b => ∃ i, S i b) Q g f :=
  fun s => triple_exists fun i => h i s

end Refines

end Heap
