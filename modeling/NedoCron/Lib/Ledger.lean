import Mathlib.Data.List.Basic
import Mathlib.Logic.Function.Basic

namespace Ledger

/-!
# Handles that are acquired, used and released

Owners `K` acquire handles `H`, use the one they hold and release it.  `track` follows one
owner through its own events and fails on the first event that breaks the discipline;
`Disciplined held log` says what that gives for the whole log of all owners: every handle is
acquired once, is released exactly once unless somebody still holds it, nobody shares a
handle, and nothing happens to a handle after its release.

* `Disciplined.extend` — the step rule: an owner whose own events are tracked, and who
  acquires only fresh handles, keeps the whole log disciplined.
-/

/-- What can happen to a handle. -/
inductive Event (H : Type*) where
  | acquire (h : H)
  | use (h : H)
  | release (h : H)
  deriving DecidableEq

variable {H K : Type*}

/-- The handle an event is about. -/
def Event.handle : Event H → H
  | .acquire h => h
  | .use h => h
  | .release h => h

@[simp] theorem Event.handle_acquire (h : H) : (Event.acquire h).handle = h := rfl
@[simp] theorem Event.handle_use (h : H) : (Event.use h).handle = h := rfl
@[simp] theorem Event.handle_release (h : H) : (Event.release h).handle = h := rfl

/-- The handles acquired by a list of events, in order. -/
def acquired : List (Event H) → List H
  | [] => []
  | .acquire h :: es => h :: acquired es
  | .use _ :: es => acquired es
  | .release _ :: es => acquired es

@[simp] theorem acquired_nil : acquired ([] : List (Event H)) = [] := rfl
@[simp] theorem acquired_acquire (h : H) (es : List (Event H)) :
    acquired (.acquire h :: es) = h :: acquired es := rfl
@[simp] theorem acquired_use (h : H) (es : List (Event H)) :
    acquired (.use h :: es) = acquired es := rfl
@[simp] theorem acquired_release (h : H) (es : List (Event H)) :
    acquired (.release h :: es) = acquired es := rfl

@[simp] theorem acquired_append (es fs : List (Event H)) :
    acquired (es ++ fs) = acquired es ++ acquired fs := by
  induction es with
  | nil => rfl
  | cons e es ih => cases e <;> simp [ih]

/-- Uses acquire nothing. -/
@[simp] theorem acquired_replicate_use (n : ℕ) (h : H) :
    acquired (List.replicate n (.use h)) = [] := by
  induction n with
  | zero => rfl
  | succ n ih => rw [List.replicate_succ, acquired_use, ih]

/-- The handles acquired are those of the `acquire` events. -/
theorem mem_acquired {h : H} {es : List (Event H)} : h ∈ acquired es ↔ .acquire h ∈ es := by
  induction es with
  | nil => simp
  | cons e es ih => cases e <;> simp [ih]

section Track

variable [DecidableEq H]

/-- What one owner holds after its events `es`, when it held `held` before; `none` as soon
    as an event uses or releases a handle it does not hold, or acquires a second one. -/
def track : Option H → List (Event H) → Option (Option H)
  | held, [] => some held
  | none, .acquire h :: es => track (some h) es
  | some h', .use h :: es => if h = h' then track (some h') es else none
  | some h', .release h :: es => if h = h' then track none es else none
  | some _, .acquire _ :: _ => none
  | none, .use _ :: _ => none
  | none, .release _ :: _ => none

@[simp] theorem track_nil (held : Option H) : track held [] = some held := by
  cases held <;> rfl

@[simp] theorem track_acquire (h : H) (es : List (Event H)) :
    track none (.acquire h :: es) = track (some h) es := rfl

@[simp] theorem track_use (h : H) (es : List (Event H)) :
    track (some h) (.use h :: es) = track (some h) es := if_pos rfl

@[simp] theorem track_release (h : H) (es : List (Event H)) :
    track (some h) (.release h :: es) = track none es := if_pos rfl

/-- One stretch of events after another. -/
@[simp] theorem track_append (held : Option H) (es fs : List (Event H)) :
    track held (es ++ fs) = (track held es).bind fun mid => track mid fs := by
  induction es generalizing held with
  | nil => simp
  | cons e es ih =>
    cases held with
    | none => cases e <;> simp [track, ih]
    | some h' =>
      cases e with
      | acquire h => rfl
      | use h =>
        by_cases hh : h = h'
        · simp [track, hh, ih]
        · simp [track, hh]
      | release h =>
        by_cases hh : h = h'
        · simp [track, hh, ih]
        · simp [track, hh]

/-- A stretch of uses of the held handle changes nothing. -/
@[simp] theorem track_replicate_use (n : ℕ) (h : H) :
    track (some h) (List.replicate n (.use h)) = some (some h) := by
  induction n with
  | zero => rfl
  | succ n ih => rw [List.replicate_succ, track_use, ih]

/-- An owner's events, and what it holds afterwards, are about handles it held before or
    acquired on the way. -/
theorem track_handles {held new : Option H} {es : List (Event H)}
    (htrack : track held es = some new) :
    (∀ e ∈ es, held = some e.handle ∨ e.handle ∈ acquired es) ∧
      ∀ h, new = some h → held = some h ∨ h ∈ acquired es := by
  induction es generalizing held with
  | nil =>
    rw [track_nil, Option.some.injEq] at htrack
    subst htrack
    exact ⟨by simp, fun h hh => Or.inl hh⟩
  | cons e es ih =>
    -- nobody holds a handle, or `g` is held
    cases held with
    | none =>
      cases e with
      | acquire g =>
        obtain ⟨hes, hnew⟩ := ih htrack
        refine ⟨fun e he => Or.inr ?_, fun h hh => Or.inr ?_⟩
        · rcases List.mem_cons.mp he with rfl | he
          · exact List.mem_cons_self
          · rcases hes e he with hg | hacq
            · rw [← Option.some.inj hg]; exact List.mem_cons_self
            · exact List.mem_cons_of_mem _ hacq
        · rcases hnew h hh with hg | hacq
          · rw [← Option.some.inj hg]; exact List.mem_cons_self
          · exact List.mem_cons_of_mem _ hacq
      | use g => exact absurd htrack (by simp [track])
      | release g => exact absurd htrack (by simp [track])
    | some g =>
      cases e with
      | acquire g' => exact absurd htrack (by simp [track])
      | use g' =>
        -- only what is held can be used or released
        obtain rfl : g' = g := by
          by_contra hne
          simp [track, hne] at htrack
        rw [track_use] at htrack
        obtain ⟨hes, hnew⟩ := ih htrack
        refine ⟨fun e he => ?_, hnew⟩
        rcases List.mem_cons.mp he with rfl | he
        · exact Or.inl rfl
        · exact hes e he
      | release g' =>
        obtain rfl : g' = g := by
          by_contra hne
          simp [track, hne] at htrack
        rw [track_release] at htrack
        obtain ⟨hes, hnew⟩ := ih htrack
        refine ⟨fun e he => ?_, fun h hh => Or.inr ((hnew h hh).resolve_left (by simp))⟩
        rcases List.mem_cons.mp he with rfl | he
        · exact Or.inl rfl
        · exact Or.inr ((hes e he).resolve_left (by simp))

/-- One step of an owner: its events are tracked from what it holds to `new`, and it acquires
    nothing but the handle `fresh`. -/
structure Owns (held : Option H) (es : List (Event H)) (new : Option H) (fresh : H) : Prop where
  track : track held es = some new
  acquired : acquired es = [] ∨ acquired es = [fresh]

theorem Owns.none (held : Option H) (fresh : H) : Owns held [] held fresh :=
  ⟨track_nil held, Or.inl rfl⟩

/-- Only the fresh handle can be acquired. -/
theorem Owns.mem_acquired {held new : Option H} {es : List (Event H)} {fresh h : H}
    (ho : Owns held es new fresh) (hmem : h ∈ Ledger.acquired es) : h = fresh := by
  rcases ho.acquired with hnil | hone
  · rw [hnil] at hmem; exact absurd hmem (by simp)
  · rw [hone] at hmem; exact List.mem_singleton.mp hmem

/-- The events of an owner's step are about the handle it held or the fresh one. -/
theorem Owns.handle_cases {held new : Option H} {es : List (Event H)} {fresh : H}
    (ho : Owns held es new fresh) {e : Event H} (he : e ∈ es) :
    held = some e.handle ∨ e.handle = fresh :=
  ((track_handles ho.track).1 e he).imp_right ho.mem_acquired

/-- What an owner holds after its step is what it held or the fresh handle. -/
theorem Owns.new_cases {held new : Option H} {es : List (Event H)} {fresh h : H}
    (ho : Owns held es new fresh) (hnew : new = some h) : held = some h ∨ h = fresh :=
  ((track_handles ho.track).2 h hnew).imp_right ho.mem_acquired

end Track

/-- The whole log of all owners keeps the discipline. -/
structure Disciplined (held : K → Option H) (log : List (Event H)) [DecidableEq H] : Prop where
  /-- no two owners hold the same handle -/
  exclusive : ∀ k k' h, held k = some h → held k' = some h → k = k'
  /-- a held handle has been acquired and not released -/
  live : ∀ k h, held k = some h → .acquire h ∈ log ∧ .release h ∉ log
  /-- a handle nobody holds any more was released exactly once -/
  returned : ∀ h, .acquire h ∈ log → (∃ k, held k = some h) ∨ log.count (.release h) = 1
  /-- no handle is acquired twice -/
  once : ∀ h, log.count (.acquire h) ≤ 1
  /-- only acquired handles are used or released -/
  known : ∀ e ∈ log, .acquire e.handle ∈ log
  /-- nothing happens to a handle after its release -/
  quiet : ∀ l₁ h l₂, log = l₁ ++ .release h :: l₂ → ∀ e ∈ l₂, e.handle ≠ h

namespace Disciplined

variable [DecidableEq H] {held held' : K → Option H} {log es : List (Event H)}

/-- Nobody holds anything and nothing has happened. -/
theorem empty : Disciplined (fun _ : K => (none : Option H)) [] where
  exclusive := by simp
  live := by simp
  returned := by simp
  once := by simp
  known := by simp
  quiet := by simp

omit [DecidableEq H] in
/-- A tail after one more event splits at the old log or is empty. -/
private theorem tail_of_concat {e : Event H} {l₁ l₂ : List (Event H)} {h : H}
    (heq : log ++ [e] = l₁ ++ .release h :: l₂) :
    (l₂ = [] ∧ l₁ = log ∧ e = .release h) ∨
      ∃ m, l₂ = m ++ [e] ∧ log = l₁ ++ .release h :: m := by
  rcases List.eq_nil_or_concat l₂ with rfl | ⟨m, x, rfl⟩
  · left
    have := List.append_inj' heq (by simp)
    exact ⟨rfl, this.1.symm, by simpa using this.2⟩
  · right
    refine ⟨m, ?_, ?_⟩
    all_goals
      have := List.append_inj' (show log ++ [e] = (l₁ ++ .release h :: m) ++ [x] by simpa using heq)
        (by simp)
      obtain ⟨h1, h2⟩ := this
      simp_all

/-- An owner holding nothing acquires a fresh handle. -/
theorem acquire (d : Disciplined held log) {k : K} {h : H} (hk : held k = none)
    (hfresh : ∀ e ∈ log, e.handle ≠ h) (hself : held' k = some h)
    (hother : ∀ k', k' ≠ k → held' k' = held k') :
    Disciplined held' (log ++ [.acquire h]) := by
  have hnot : ∀ e : Event H, e.handle = h → e ∉ log := fun e he hm => hfresh e hm he
  -- who holds what now: the fresh handle, or what was held before
  have hcase : ∀ k' g, held' k' = some g → (k' = k ∧ g = h) ∨ (held k' = some g ∧ g ≠ h) := by
    intro k' g hg
    by_cases hkk : k' = k
    · left; subst hkk; exact ⟨rfl, by simpa [hself] using hg.symm⟩
    · right
      rw [hother k' hkk] at hg
      exact ⟨hg, fun hgh => hfresh _ (d.live k' g hg).1 hgh⟩
  -- the fields in order: exclusive, live, returned, once, known, quiet
  constructor
  · intro a b g ha hb
    rcases hcase a g ha with ⟨rfl, rfl⟩ | ⟨ha', hg⟩ <;>
      rcases hcase b _ hb with ⟨rfl, hgh⟩ | ⟨hb', hg'⟩
    · rfl
    · exact absurd rfl hg'
    · exact absurd hgh hg
    · exact d.exclusive a b g ha' hb'
  · intro k' g hg
    rcases hcase k' g hg with ⟨rfl, rfl⟩ | ⟨hg', hne⟩
    · exact ⟨by simp, by simpa using hnot _ rfl⟩
    · have := d.live k' g hg'
      exact ⟨by simp [this.1], by simpa using this.2⟩
  · intro g hg
    by_cases hgh : g = h
    · exact Or.inl ⟨k, hgh ▸ hself⟩
    · have hg' : .acquire g ∈ log := by simpa [hgh] using hg
      rcases d.returned g hg' with ⟨k', hk'⟩ | hone
      · have hne : k' ≠ k := by rintro rfl; simp [hk] at hk'
        exact Or.inl ⟨k', (hother k' hne).trans hk'⟩
      · exact Or.inr (by simpa using hone)
  · intro g
    by_cases hgh : g = h
    · subst hgh
      simp [List.count_eq_zero_of_not_mem (hnot (.acquire g) rfl)]
    · have hne : (Event.acquire h) ≠ .acquire g := by simpa using fun he => hgh he.symm
      simpa [List.count_append, hne] using d.once g
  · intro e he
    rcases List.mem_append.mp he with he | he
    · simp [d.known e he]
    · obtain rfl := List.mem_singleton.mp he
      simp
  · intro l₁ g l₂ heq e he
    rcases tail_of_concat heq with ⟨rfl, -, -⟩ | ⟨m, rfl, hlog⟩
    · simp at he
    · rcases List.mem_append.mp he with he | he
      · exact d.quiet l₁ g m hlog e he
      · obtain rfl := List.mem_singleton.mp he
        exact fun hgh => hfresh (.release g) (by simp [hlog]) hgh.symm

/-- An owner uses the handle it holds. -/
theorem use (d : Disciplined held log) {k : K} {h : H} (hk : held k = some h) :
    Disciplined held (log ++ [.use h]) := by
  have hlive := d.live k h hk
  constructor
  · exact d.exclusive
  · intro k' g hg
    have := d.live k' g hg
    exact ⟨by simp [this.1], by simpa using this.2⟩
  · intro g hg
    rcases d.returned g (by simpa using hg) with hk' | hone
    · exact Or.inl hk'
    · exact Or.inr (by simpa using hone)
  · intro g; simpa using d.once g
  · intro e he
    rcases List.mem_append.mp he with he | he
    · simp [d.known e he]
    · obtain rfl := List.mem_singleton.mp he
      simp [hlive.1]
  · intro l₁ g l₂ heq e he
    rcases tail_of_concat heq with ⟨rfl, -, -⟩ | ⟨m, rfl, hlog⟩
    · simp at he
    · rcases List.mem_append.mp he with he | he
      · exact d.quiet l₁ g m hlog e he
      · obtain rfl := List.mem_singleton.mp he
        intro hgh
        obtain rfl : h = g := hgh
        exact hlive.2 (by simp [hlog])

/-- Owners use the handles they hold, in any order. -/
theorem uses (d : Disciplined held log)
    (h : ∀ e ∈ es, ∃ k h, e = .use h ∧ held k = some h) : Disciplined held (log ++ es) := by
  induction es generalizing log with
  | nil => rw [List.append_nil]; exact d
  | cons e es ih =>
    obtain ⟨k, g, rfl, hk⟩ := h e (by simp)
    have hrest := ih (d.use hk) fun e he => h e (by simp [he])
    rwa [List.append_assoc, List.singleton_append] at hrest

/-- An owner releases the handle it holds. -/
theorem release (d : Disciplined held log) {k : K} {h : H} (hk : held k = some h)
    (hself : held' k = none) (hother : ∀ k', k' ≠ k → held' k' = held k') :
    Disciplined held' (log ++ [.release h]) := by
  have hlive := d.live k h hk
  -- what is held now was held before, and by another owner
  have hcase : ∀ k' g, held' k' = some g → k' ≠ k ∧ held k' = some g ∧ g ≠ h := by
    intro k' g hg
    have hkk : k' ≠ k := by rintro rfl; simp [hself] at hg
    rw [hother k' hkk] at hg
    refine ⟨hkk, hg, ?_⟩
    rintro rfl
    exact hkk (d.exclusive k' k g hg hk)
  constructor
  · intro a b g ha hb
    exact d.exclusive a b g (hcase a g ha).2.1 (hcase b g hb).2.1
  · intro k' g hg
    obtain ⟨-, hg', hne⟩ := hcase k' g hg
    have := d.live k' g hg'
    exact ⟨by simp [this.1], by simp [this.2, hne]⟩
  · -- the handle itself is back; any other is where it was
    intro g hg
    have hg' : .acquire g ∈ log := by simpa using hg
    by_cases hgh : g = h
    · subst hgh
      right
      simp [List.count_append, List.count_eq_zero_of_not_mem hlive.2]
    · have hne : (Event.release h) ≠ .release g := by simpa using fun he => hgh he.symm
      rcases d.returned g hg' with ⟨k', hk'⟩ | hone
      · have hkk : k' ≠ k := by
          rintro rfl
          exact hgh (by simpa [hk] using hk'.symm)
        exact Or.inl ⟨k', (hother k' hkk).trans hk'⟩
      · exact Or.inr (by simpa [List.count_append, hne] using hone)
  · intro g; simpa using d.once g
  · intro e he
    rcases List.mem_append.mp he with he | he
    · simp [d.known e he]
    · obtain rfl := List.mem_singleton.mp he
      simp [hlive.1]
  · intro l₁ g l₂ heq e he
    rcases tail_of_concat heq with ⟨rfl, -, -⟩ | ⟨m, rfl, hlog⟩
    · simp at he
    · rcases List.mem_append.mp he with he | he
      · exact d.quiet l₁ g m hlog e he
      · obtain rfl := List.mem_singleton.mp he
        intro hgh
        obtain rfl : h = g := hgh
        exact hlive.2 (by simp [hlog])

/-- **The step rule.** Owner `k` performs the tracked events `es`, acquiring only fresh
    handles, and ends up holding what `track` says; everybody else keeps what they hold. -/
theorem extend (d : Disciplined held log) {k : K} {new : Option H}
    (htrack : track (held k) es = some new)
    (hnodup : (acquired es).Nodup)
    (hfresh : ∀ h ∈ acquired es, ∀ e ∈ log, e.handle ≠ h)
    (hself : held' k = new) (hother : ∀ k', k' ≠ k → held' k' = held k') :
    Disciplined held' (log ++ es) := by
  classical
  induction es generalizing held log with
  | nil =>
    rw [track_nil, Option.some.injEq] at htrack
    have hsame : held' = held := by
      funext k'
      by_cases hk : k' = k
      · rw [hk, hself, htrack]
      · exact hother k' hk
    rw [List.append_nil, hsame]
    exact d
  | cons e es ih =>
    rw [← List.singleton_append, ← List.append_assoc]
    -- the owner's holding after the first event; the others keep theirs
    cases e with
    | acquire h =>
      obtain ⟨hnot, hnodup⟩ := List.nodup_cons.mp hnodup
      have hk : held k = none := by
        cases hcur : held k with
        | none => rfl
        | some g => rw [hcur] at htrack; simp [track] at htrack
      rw [hk, track_acquire] at htrack
      have hnext : Disciplined (Function.update held k (some h)) (log ++ [.acquire h]) :=
        d.acquire hk (hfresh h (by simp)) (by simp) (fun k' hk' => by simp [hk'])
      refine ih hnext (by simpa using htrack) hnodup ?_ ?_
      · intro g hg e he
        rcases List.mem_append.mp he with he | he
        · exact hfresh g (by simp [hg]) e he
        · obtain rfl := List.mem_singleton.mp he
          rintro rfl
          exact hnot hg
      · intro k' hk'; rw [hother k' hk', Function.update_of_ne hk']
    | use h =>
      have hk : held k = some h := by
        cases hcur : held k with
        | none => rw [hcur] at htrack; simp [track] at htrack
        | some g =>
          rw [hcur] at htrack
          by_cases hg : h = g
          · rw [hg]
          · simp [track, hg] at htrack
      rw [hk, track_use] at htrack
      refine ih (d.use hk) (by rw [hk]; exact htrack) hnodup ?_ hother
      intro g hg e he
      rcases List.mem_append.mp he with he | he
      · exact hfresh g hg e he
      · obtain rfl := List.mem_singleton.mp he
        exact hfresh g hg (.acquire h) (d.live k h hk).1
    | release h =>
      have hk : held k = some h := by
        cases hcur : held k with
        | none => rw [hcur] at htrack; simp [track] at htrack
        | some g =>
          rw [hcur] at htrack
          by_cases hg : h = g
          · rw [hg]
          · simp [track, hg] at htrack
      rw [hk, track_release] at htrack
      have hnext : Disciplined (Function.update held k none) (log ++ [.release h]) :=
        d.release hk (by simp) (fun k' hk' => by simp [hk'])
      refine ih hnext (by simpa using htrack) hnodup ?_ ?_
      · intro g hg e he
        rcases List.mem_append.mp he with he | he
        · exact hfresh g hg e he
        · obtain rfl := List.mem_singleton.mp he
          exact hfresh g hg (.acquire h) (d.live k h hk).1
      · intro k' hk'; rw [hother k' hk', Function.update_of_ne hk']

/-- **The step rule, for an owner's step.** -/
theorem owns (d : Disciplined held log) {k : K} {new : Option H} {fresh : H}
    (ho : Owns (held k) es new fresh) (hfresh : ∀ e ∈ log, e.handle ≠ fresh)
    (hself : held' k = new) (hother : ∀ k', k' ≠ k → held' k' = held k') :
    Disciplined held' (log ++ es) := by
  refine d.extend ho.track ?_ ?_ hself hother
  · rcases ho.acquired with h | h <;> rw [h] <;> simp
  · intro h hmem
    rw [ho.mem_acquired hmem]
    exact hfresh

/-- After an owner's step every handle is an old one or the fresh one. -/
theorem handle_cases (d : Disciplined held' (log ++ es)) {old new : Option H} {fresh : H}
    (ho : Owns old es new fresh) {e : Event H} (he : e ∈ log ++ es) :
    (∃ e' ∈ log, e'.handle = e.handle) ∨ e.handle = fresh := by
  rcases List.mem_append.mp (d.known e he) with hlog | hes
  · exact Or.inl ⟨_, hlog, rfl⟩
  · exact Or.inr (ho.mem_acquired (mem_acquired.mpr hes))

end Disciplined

end Ledger
