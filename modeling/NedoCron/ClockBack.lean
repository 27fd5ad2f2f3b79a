import NedoCron.MinuteAccounting

namespace NedoCron

/-!
# nedo_cron — when the clock is set back

What a call of `StartPendingTasks` is meant to do with a reading below the stored minute, and
what it does.  `TimestampDifference` reports no time between a timestamp and an earlier one,
so `MinutesPassed` is never negative: the two branches for a clock set back are not taken, no
five-field job is queued and the stored minute stays until the clock has caught up with it.
-/

/-! ### What is meant -/

/-- Whole minutes the reading is behind the stored minute. -/
def Pass.minutesBehind (p : Pass) (lastMinute : Int) : Int := (lastMinute - p.now) / minute

/-- Readings that advance by at most five minutes from one to the next. -/
def AdvancesSlowly (m : Int) (passes : List Pass) : Prop :=
  (m :: passes.map Pass.now).IsChain fun a b => a ≤ b ∧ b - a ≤ 5 * minute

/-- A change of the clock: each job matching the new minute is queued once, the new minute is
    stored, and from there on every minute is evaluated exactly once. -/
structure Pass.ClockChanged (p : Pass) (lastMinute : Int) : Prop where
  queued : ∀ jobId job, p.Loads jobId job → job.schedule.seconds = false →
    p.added lastMinute jobId = if job.schedule.matches (startOfMinute p.now) then 1 else 0
  stored : p.next lastMinute = startOfMinute p.now
  following : ∀ jobId job passes, (∀ q ∈ passes, q.Loads jobId job) →
    job.schedule.seconds = false → AdvancesSlowly p.now passes →
    totalAdded jobId (p.next lastMinute) passes =
      Grid.count minute job.schedule.matches (startOfMinute p.now)
        (latestMinute (startOfMinute p.now) passes)

/-- A small step back: each floating job matching the current minute is queued once for each
    minute entered on the clock, and fixed jobs are not queued again. -/
def Pass.SteppedBack (p : Pass) (lastMinute previous : Int) : Prop :=
  ∀ jobId job, p.Loads jobId job → job.schedule.seconds = false →
    p.added lastMinute jobId =
      if job.schedule.isFloating = true ∧ job.schedule.matches (startOfMinute p.now) = true ∧
        startOfMinute p.now ≠ startOfMinute previous then 1 else 0

/-- What a call is meant to do with a reading below the stored minute, when the reading before
    it was `previous`. -/
def Pass.SetBack (p : Pass) (lastMinute previous : Int) : Prop :=
  (180 ≤ p.minutesBehind lastMinute → p.ClockChanged lastMinute) ∧
  (1 ≤ p.minutesBehind lastMinute → p.minutesBehind lastMinute ≤ 179 →
    p.SteppedBack lastMinute previous)

/-! ### What is done -/

/-- No time passes towards an earlier reading: nothing is queued and nothing is stored. -/
theorem Pass.behind {lastMinute : Int} (hlast : lastMinute ≠ 0) {p : Pass}
    (h : p.now < lastMinute) :
    p.next lastMinute = lastMinute ∧
      ∀ jobId job, p.Loads jobId job → job.schedule.seconds = false →
        p.added lastMinute jobId = 0 := by
  have hzero : minutesPassed lastMinute p.now = 0 := minutesPassed_of_le (le_of_lt h)
  have hinit : initLastMinute lastMinute p.now = lastMinute := if_neg hlast
  refine ⟨?_, fun jobId job hload hseconds => ?_⟩
  · have hstatus : clockStatusOf 0 = .jumpBackward := by decide
    unfold Pass.next startPendingTasks
    dsimp only
    rw [hinit, hzero, if_pos hstatus]
  · obtain ⟨task, _, hadded⟩ := Pass.added_eq hload hseconds lastMinute
    rw [hinit, hzero] at hadded
    simpa using hadded

/-- Rounding moves a reading by less than a minute. -/
theorem startOfMinute_lt_add (t : Int) : startOfMinute t < t + minute := by
  by_cases ht : 0 ≤ t
  · have := (startOfMinute_bounds ht).1
    unfold minute
    omega
  · have hneg : (-t).tmod minute = -(t.tmod minute) := Int.neg_tmod t minute
    unfold startOfMinute minute at *
    rw [Int.tmod_eq_emod_of_nonneg (show 0 ≤ -t by omega)] at hneg
    omega

/-- A loaded floating job that is due in a minute just entered. -/
def Pass.DueJob (p : Pass) (previous : Int) : Prop :=
  ∃ jobId job, p.Loads jobId job ∧ job.schedule.seconds = false ∧
    job.schedule.isFloating = true ∧ job.schedule.matches (startOfMinute p.now) = true ∧
    startOfMinute p.now ≠ startOfMinute previous

/-- A change of the clock is never noticed: the new minute is not stored. -/
theorem Pass.not_clockChanged {lastMinute : Int} (hlast : lastMinute ≠ 0) {p : Pass}
    (h : p.now < lastMinute) (hbehind : 180 ≤ p.minutesBehind lastMinute) :
    ¬p.ClockChanged lastMinute := by
  intro hchanged
  have hstored := hchanged.stored
  rw [(Pass.behind hlast h).1] at hstored
  have hround := startOfMinute_lt_add p.now
  unfold Pass.minutesBehind minute at hbehind
  unfold minute at hround
  omega

/-- After a small step back nothing is queued, which is right as long as nothing is due. -/
theorem Pass.steppedBack_iff {lastMinute : Int} (hlast : lastMinute ≠ 0) {p : Pass}
    (h : p.now < lastMinute) (previous : Int) :
    p.SteppedBack lastMinute previous ↔ ¬p.DueJob previous := by
  have hnone := (Pass.behind hlast h).2
  constructor
  · rintro hstepped ⟨jobId, job, hload, hseconds, hdue⟩
    have hone := hstepped jobId job hload hseconds
    rw [hnone jobId job hload hseconds, if_pos hdue] at hone
    exact absurd hone (by decide)
  · intro hno jobId job hload hseconds
    rw [hnone jobId job hload hseconds, if_neg]
    exact fun hdue => hno ⟨jobId, job, hload, hseconds, hdue⟩

/-- **Clock set back.**  For every stored minute and every reading below it, the call does what
    it is meant to do exactly when the reading is fewer than 180 minutes behind and, if it is
    at least one minute behind, no loaded floating job is due in a minute just entered. -/
theorem startPendingTasks_setBack_iff (lastMinute : Int) (hlast : lastMinute ≠ 0) (p : Pass)
    (h : p.now < lastMinute) (previous : Int) :
    p.SetBack lastMinute previous ↔
      p.minutesBehind lastMinute < 180 ∧
        (1 ≤ p.minutesBehind lastMinute → ¬p.DueJob previous) := by
  unfold Pass.SetBack
  rw [Pass.steppedBack_iff hlast h]
  constructor
  · rintro ⟨hchange, hstep⟩
    have hlt : p.minutesBehind lastMinute < 180 := by
      by_contra hge
      exact Pass.not_clockChanged hlast h (by omega) (hchange (by omega))
    exact ⟨hlt, fun hone => hstep hone (by omega)⟩
  · rintro ⟨hlt, hno⟩
    exact ⟨fun hge => absurd hge (by omega), fun hone _ => hno hone⟩

/-- The theorem at a reading of 00:08 when 00:10 is stored. -/
theorem startPendingTasks_setBack_iff_twoMinutes :
    (minutePass 480000000).SetBack 600000000 600000000 ↔
      (minutePass 480000000).minutesBehind 600000000 < 180 ∧
        (1 ≤ (minutePass 480000000).minutesBehind 600000000 →
          ¬(minutePass 480000000).DueJob 600000000) :=
  startPendingTasks_setBack_iff 600000000 (by decide) (minutePass 480000000) (by decide) 600000000

/-- A clock set back from 03:20 to 00:10 is not noticed, though it is 190 minutes behind. -/
theorem startPendingTasks_not_setBack :
    ¬(minutePass 600000000).SetBack 12000000000 12000000000 := by
  intro hmeant
  exact Pass.not_clockChanged (by decide) (by decide) (by decide) (hmeant.1 (by decide))

end NedoCron
