import NedoCron.Lib.Machine

namespace Mirror

/-!
# A copy that is kept up to date by notices

A reader keeps a copy, computed by `f`, of a source that others change.  Every change sends a
notice, which is delivered some time later, in any order; a delivered notice marks the copy
invalid, and loading it anew marks it valid.  A load works on what was read before it.

* `inv_step` — the copy, or what was read for it, reflects every change but those whose
  notices are undelivered, as long as a notice that arrives between a read and its load is of
  a change that was read;
* `State.Inv.current` — then a valid copy without undelivered notices is current.
-/

variable {α β : Type*}

/-- The source and the reader's copy of it.  Changes are numbered from 1. -/
structure State (α β : Type*) where
  source : α
  changes : Nat
  /-- the changes whose notices have not been delivered -/
  undelivered : List Nat
  valid : Bool
  copy : β
  /-- what was read for the next load, and the number of changes it reflects -/
  reading : Option (α × Nat)

inductive Event (α : Type*) where
  | change (source : α)
  /-- the notice of a change is delivered -/
  | deliver (n : Nat)
  /-- the copy is marked invalid without a notice -/
  | discard
  | read
  | load

/-- One event; a notice is delivered once, and a load needs a read. -/
def State.step (f : α → β) (s : State α β) : Event α → State α β
  | .change source =>
    { s with
      source := source
      changes := s.changes + 1
      undelivered := (s.changes + 1) :: s.undelivered }
  | .deliver n =>
    if n ∈ s.undelivered then
      { s with undelivered := s.undelivered.filter (· ≠ n), valid := false }
    else s
  | .discard => { s with valid := false }
  | .read => { s with reading := some (s.source, s.changes) }
  | .load =>
    match s.reading with
    | none => s
    | some (a, _) => { s with valid := true, copy := f a, reading := none }

/-- What was read after `n` changes misses only changes whose notices are undelivered. -/
structure State.Covers (s : State α β) (a : α) (n : Nat) : Prop where
  le_changes : n ≤ s.changes
  current : n = s.changes → a = s.source
  later : ∀ m, n < m → m ≤ s.changes → m ∈ s.undelivered

/-- What is read from the source now misses nothing. -/
theorem covers_source (s : State α β) : s.Covers s.source s.changes where
  le_changes := Nat.le_refl _
  current _ := rfl
  later m hm hm' := absurd hm' (by omega)

/-- A later change is missed, and its notice is undelivered. -/
theorem State.Covers.change {s : State α β} {a : α} {n : Nat} (h : s.Covers a n) (f : α → β)
    (source : α) : (s.step f (.change source)).Covers a n where
  le_changes := Nat.le_succ_of_le h.le_changes
  current hn := by
    have hle := h.le_changes
    change n = s.changes + 1 at hn
    omega
  later m hm hm' := by
    change m ≤ s.changes + 1 at hm'
    show m ∈ (s.changes + 1) :: s.undelivered
    rcases Nat.lt_or_eq_of_le hm' with hlt | rfl
    · exact List.mem_cons_of_mem _ (h.later m hm (by omega))
    · exact List.mem_cons_self

/-- The notice of a change that was read may be delivered. -/
theorem State.Covers.deliver {s : State α β} {a : α} {n m : Nat} (h : s.Covers a n) (f : α → β)
    (hm : m ≤ n) : (s.step f (.deliver m)).Covers a n := by
  unfold State.step
  dsimp only
  split
  · refine ⟨h.le_changes, h.current, fun k hk hk' => ?_⟩
    exact List.mem_filter.mpr ⟨h.later k hk hk', by simpa using by omega⟩
  · exact h

/-- The invariant: what was read, and a valid copy, miss only undelivered changes. -/
structure State.Inv (f : α → β) (s : State α β) : Prop where
  read : ∀ a n, s.reading = some (a, n) → s.Covers a n
  copied : s.reading = none → s.valid = true → ∃ a n, s.copy = f a ∧ s.Covers a n

/-- A notice that arrives between a read and its load is of a change that was read. -/
def State.Timely (s : State α β) : Event α → Prop
  | .deliver m => ∀ a n, s.reading = some (a, n) → m ≤ n
  | _ => True

/-- **The step rule.** -/
theorem inv_step (f : α → β) (s : State α β) (e : Event α) (ht : s.Timely e) (h : s.Inv f) :
    (s.step f e).Inv f := by
  cases e with
  | change source =>
    refine ⟨fun a n hread => (h.read a n hread).change f source, fun hread hvalid => ?_⟩
    -- a later change only adds an undelivered notice
    obtain ⟨a, n, hcopy, hcovers⟩ := h.copied hread hvalid
    exact ⟨a, n, hcopy, hcovers.change f source⟩
  | deliver m =>
    by_cases hm : m ∈ s.undelivered
    · have hstep : s.step f (.deliver m) =
          { s with undelivered := s.undelivered.filter (· ≠ m), valid := false } := if_pos hm
      refine ⟨fun a n hread => ?_, fun _ hvalid => ?_⟩
      · -- a timely notice is of a change that was read; it clears the flag
        rw [hstep] at hread
        exact (h.read a n hread).deliver f (ht a n hread)
      · rw [hstep] at hvalid
        exact absurd hvalid Bool.false_ne_true
    · rw [show s.step f (.deliver m) = s from if_neg hm]
      exact h
  | discard =>
    refine ⟨fun a n hread => ?_, fun _ hvalid => absurd hvalid Bool.false_ne_true⟩
    obtain ⟨hle, hcurrent, hlater⟩ := h.read a n hread
    exact ⟨hle, hcurrent, hlater⟩
  | read =>
    refine ⟨fun a n hread => ?_, fun hread => absurd hread (by simp [State.step])⟩
    -- what is read now misses nothing
    obtain ⟨rfl, rfl⟩ : s.source = a ∧ s.changes = n := by simpa [State.step] using hread
    obtain ⟨hle, hcurrent, hlater⟩ := covers_source s
    exact ⟨hle, hcurrent, hlater⟩
  | load =>
    rcases hreading : s.reading with _ | ⟨a, n⟩
    · have hstep : s.step f .load = s := by unfold State.step; rw [hreading]
      rw [hstep]
      exact h
    · have hstep : s.step f .load =
          { s with valid := true, copy := f a, reading := none } := by
        unfold State.step; rw [hreading]
      obtain ⟨hle, hcurrent, hlater⟩ := h.read a n hreading
      rw [hstep]
      exact ⟨fun a' n' hread => absurd hread (by simp), fun _ _ =>
        ⟨a, n, rfl, hle, hcurrent, hlater⟩⟩

/-- **A valid copy is current**, once every notice has been delivered. -/
theorem State.Inv.current {f : α → β} {s : State α β} (h : s.Inv f) (hread : s.reading = none)
    (hvalid : s.valid = true) (hall : s.undelivered = []) : s.copy = f s.source := by
  obtain ⟨a, n, hcopy, hcovers⟩ := h.copied hread hvalid
  have hn : n = s.changes := by
    by_contra hne
    have hlt : n < s.changes := Nat.lt_of_le_of_ne hcovers.le_changes hne
    have hmem := hcovers.later s.changes hlt (Nat.le_refl _)
    rw [hall] at hmem
    exact absurd hmem (by simp)
  rw [hcopy, hcovers.current hn]

end Mirror
