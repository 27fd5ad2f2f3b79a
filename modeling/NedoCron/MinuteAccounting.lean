import NedoCron.Firing
import NedoCron.Lib.Grid
import NedoCron.Lib.Machine

namespace NedoCron

/-!
# nedo_cron — every minute is accounted for once

Successive calls of `StartPendingTasks` share nothing but the static `lastMinute`: the job
table, the task table and the clock reading of each call (`Pass`) are arbitrary.  The stored
minute is the latest minute any reading has reached (`Pass.next_eq`), and a call adds the due
minutes between the stored minute and its own reading, so a run of calls adds up the due
minutes of one interval, none skipped and none counted twice.
-/

/-! ### Calls -/

/-- What one call of `StartPendingTasks` is given besides `lastMinute`. -/
structure Pass where
  jobs : Table Int CronJob
  tasks : Table Int CronTask
  now : Int

/-- The task table after the call. -/
def Pass.tasksAfter (p : Pass) (lastMinute : Int) : Table Int CronTask :=
  (startPendingTasks p.jobs lastMinute p.tasks p.now).1

/-- The stored minute after the call. -/
def Pass.next (p : Pass) (lastMinute : Int) : Int :=
  (startPendingTasks p.jobs lastMinute p.tasks p.now).2

/-- The length of the queue of a job. -/
def pendingOf (tasks : Table Int CronTask) (jobId : Int) : Int :=
  ((tasks.lookup jobId).map CronTask.pendingRunCount).getD 0

/-- The number of runs the call adds to the queue of a job. -/
def Pass.added (p : Pass) (lastMinute jobId : Int) : Int :=
  pendingOf (p.tasksAfter lastMinute) jobId - pendingOf p.tasks jobId

/-- The stored minute after successive calls. -/
def storedMinute (lastMinute : Int) (passes : List Pass) : Int :=
  Machine.run (fun last p => p.next last) lastMinute passes

/-- The number of runs successive calls add to the queue of a job. -/
def totalAdded (jobId : Int) : Int → List Pass → Int
  | _, [] => 0
  | lastMinute, p :: passes =>
    p.added lastMinute jobId + totalAdded jobId (p.next lastMinute) passes

/-- The job is loaded, and has its task, in the call. -/
def Pass.Loads (p : Pass) (jobId : Int) (job : CronJob) : Prop :=
  p.jobs.lookup jobId = some job ∧ ∃ task, p.tasks.lookup jobId = some task ∧ task.jobId = jobId

/-- The reading is at most 180 whole minutes past the minute the call starts from. -/
def Pass.Timely (lastMinute : Int) (p : Pass) : Prop :=
  (p.now - initLastMinute lastMinute p.now) / minute ≤ 180

instance (lastMinute : Int) (p : Pass) : Decidable (p.Timely lastMinute) :=
  inferInstanceAs (Decidable (_ ≤ _))

/-- The schedule is due at a minute. -/
def CronSchedule.matches (schedule : CronSchedule) (m : Int) : Bool :=
  shouldRunTask schedule m true true

/-! ### Minutes -/

/-- The start of a minute, at least one minute after the epoch. -/
structure IsMinute (m : Int) : Prop where
  le : minute ≤ m
  dvd : minute ∣ m

/-- Minutes are positive. -/
theorem IsMinute.pos {m : Int} (h : IsMinute m) : 0 < m := by
  have := h.le
  unfold minute at this
  omega

/-- The minute of a reading is one. -/
theorem isMinute_startOfMinute {t : Int} (h : minute ≤ t) : IsMinute (startOfMinute t) := by
  have hself : startOfMinute minute = minute := by decide
  have hmono := startOfMinute_mono (by decide) h
  rw [hself] at hmono
  exact ⟨hmono, minute_dvd_startOfMinute t⟩

/-- Whole minutes from a minute on: as many as the rounded reading is away. -/
theorem startOfMinute_sub {m t : Int} (hm : IsMinute m) (h : m ≤ t) :
    startOfMinute t = m + (t - m) / minute * minute := by
  have hpos := hm.pos
  obtain ⟨k, rfl⟩ := hm.dvd
  unfold startOfMinute minute at *
  rw [Int.tmod_eq_emod_of_nonneg (by omega)]
  omega

/-- No minute up to a reading is after the minute of the reading. -/
theorem le_startOfMinute {m t : Int} (hm : IsMinute m) (h : m ≤ t) : m ≤ startOfMinute t := by
  rw [startOfMinute_sub hm h]
  unfold minute
  omega

/-- A reading that has not reached the next minute rounds to this one or an earlier one. -/
theorem startOfMinute_le {m t : Int} (hm : IsMinute m) (h : t < m + minute) :
    startOfMinute t ≤ m := by
  by_cases hlt : m ≤ t
  · rw [startOfMinute_sub hm hlt]
    unfold minute at *
    omega
  · by_cases ht : 0 ≤ t
    · have := (startOfMinute_bounds ht).1
      omega
    · have := startOfMinute_nonpos (by omega : t ≤ 0)
      have := hm.pos
      omega

/-! ### One task in one call -/

/-- **The loop** counts the due minutes of its interval. -/
theorem visitMinutes_eq (due : Int → Bool) {currentMinute : Int} (hcur : minute ∣ currentMinute)
    {virtTime : Int} (hvirt : minute ∣ virtTime) (n : Int) :
    visitMinutes due currentMinute virtTime n =
      n + Grid.count minute due virtTime currentMinute := by
  induction virtTime, n using visitMinutes.induct due currentMinute with
  | case1 virtTime n hlt next ih =>
    have hnext : next = virtTime + minute := rfl
    have hle : virtTime + minute ≤ currentMinute := Grid.add_le_of_lt hvirt hcur hlt
    simp only [dite_eq_ite] at ih
    rw [visitMinutes, if_pos hlt]
    show visitMinutes due currentMinute next (if due next then n + 1 else n) = _
    rw [ih (hnext ▸ Int.dvd_add hvirt (Int.dvd_refl minute)), hnext,
      Grid.count_step (by decide) hvirt hle]
    split <;> push_cast <;> omega
  | case2 virtTime n hge =>
    rw [visitMinutes, if_neg hge, Grid.count_of_le (by omega)]
    simp

/-- A fixed schedule is due in its class only. -/
theorem shouldRunTask_fixed {schedule : CronSchedule} (hseconds : schedule.seconds = false)
    (hfixed : schedule.isFloating = false) (m : Int) :
    shouldRunTask schedule m false true = schedule.matches m ∧
      shouldRunTask schedule m true false = false := by
  have hc := Calendar.toUnix_ofUnix (timestamptzToTimeT m)
  simp [CronSchedule.matches, shouldRunTask_eq hseconds hc, hfixed]

/-- A floating schedule is due in its class only. -/
theorem shouldRunTask_floating {schedule : CronSchedule} (hseconds : schedule.seconds = false)
    (hfloating : schedule.isFloating = true) (m : Int) :
    shouldRunTask schedule m false true = false ∧
      shouldRunTask schedule m true false = schedule.matches m := by
  have hc := Calendar.toUnix_ofUnix (timestamptzToTimeT m)
  simp [CronSchedule.matches, shouldRunTask_eq hseconds hc, hfloating]

/-- A fixed schedule is queued once for each due minute that has passed, jump or not. -/
theorem pendingRunCount_fixed {schedule : CronSchedule} (hseconds : schedule.seconds = false)
    (hfixed : schedule.isFloating = false) {status : ClockStatus}
    (hstatus : status = .progressed ∨ status = .jumpForward) {lastMinute : Int}
    (hlast : minute ∣ lastMinute) (now : Int) (task : CronTask) :
    (startPendingTask schedule status lastMinute now task).pendingRunCount =
      task.pendingRunCount + Grid.count minute schedule.matches lastMinute (startOfMinute now) := by
  have hcur := minute_dvd_startOfMinute now
  rcases hstatus with rfl | rfl
  · exact visitMinutes_eq _ hcur hlast _
  · have hdue : (fun m => shouldRunTask schedule m false true) = schedule.matches :=
      funext fun m => (shouldRunTask_fixed hseconds hfixed m).1
    simp only [startPendingTask, pendingRunCount_enqueueIf, hdue, visitMinutes_eq _ hcur hlast,
      (shouldRunTask_fixed hseconds hfixed _).2]
    simp

/-- A floating schedule is queued once for each due minute while the clock progresses. -/
theorem pendingRunCount_progressed (schedule : CronSchedule) {lastMinute : Int}
    (hlast : minute ∣ lastMinute) (now : Int) (task : CronTask) :
    (startPendingTask schedule .progressed lastMinute now task).pendingRunCount =
      task.pendingRunCount + Grid.count minute schedule.matches lastMinute (startOfMinute now) :=
  visitMinutes_eq _ (minute_dvd_startOfMinute now) hlast _

/-- After a jump forward a floating schedule is queued for the current minute only. -/
theorem pendingRunCount_jumpForward {schedule : CronSchedule} (hseconds : schedule.seconds = false)
    (hfloating : schedule.isFloating = true) {lastMinute : Int} (hlast : minute ∣ lastMinute)
    (now : Int) (task : CronTask) :
    (startPendingTask schedule .jumpForward lastMinute now task).pendingRunCount =
      task.pendingRunCount + if schedule.matches (startOfMinute now) then 1 else 0 := by
  have hdue : (fun m => shouldRunTask schedule m false true) = fun _ => false :=
    funext fun m => (shouldRunTask_floating hseconds hfloating m).1
  have hnone : Grid.count minute (fun _ => false) lastMinute (startOfMinute now) = 0 := by
    simp [Grid.count]
  simp only [startPendingTask, pendingRunCount_enqueueIf, hdue,
    visitMinutes_eq _ (minute_dvd_startOfMinute now) hlast, hnone,
    (shouldRunTask_floating hseconds hfloating _).2]
  simp

/-! ### One call -/

/-- What a call adds for a loaded five-field job. -/
theorem Pass.added_eq {p : Pass} {jobId : Int} {job : CronJob} (hload : p.Loads jobId job)
    (hseconds : job.schedule.seconds = false) (lastMinute : Int) :
    ∃ task, p.tasks.lookup jobId = some task ∧
      p.added lastMinute jobId =
        (if minutesPassed (initLastMinute lastMinute p.now) p.now ≠ 0 then
          startPendingTask job.schedule
            (clockStatusOf (minutesPassed (initLastMinute lastMinute p.now) p.now))
            (initLastMinute lastMinute p.now) p.now task
        else task).pendingRunCount - task.pendingRunCount := by
  obtain ⟨hjob, task, htask, rfl⟩ := hload
  refine ⟨task, htask, ?_⟩
  have hentry : (p.tasksAfter lastMinute).lookup task.jobId =
      some (schedulePendingTask p.jobs (initLastMinute lastMinute p.now) p.now task) := by
    unfold Pass.tasksAfter startPendingTasks
    dsimp only
    split <;> rw [Table.lookup_mapEntries, htask] <;> rfl
  unfold Pass.added pendingOf
  rw [hentry, htask]
  simp only [schedulePendingTask, getCronJob, hjob, hseconds, Bool.false_eq_true, if_false,
    Option.map_some, Option.getD_some]

/-- A reading behind the stored minute, or less than a minute after it, is no progress. -/
theorem minutesPassed_eq_zero {lastMinute now : Int} (h : now < lastMinute + minute) :
    minutesPassed lastMinute now = 0 := by
  by_cases hle : now ≤ lastMinute
  · exact minutesPassed_of_le hle
  · unfold minute at h
    rw [minutesPassed_of_lt (by omega) (by omega)]
    unfold minute
    omega

/-- A reading up to 180 whole minutes ahead is measured exactly. -/
theorem minutesPassed_timely {lastMinute now : Int} (h : lastMinute ≤ now)
    (htimely : (now - lastMinute) / minute ≤ 180) :
    minutesPassed lastMinute now = (now - lastMinute) / minute := by
  unfold minute at htimely
  exact minutesPassed_of_lt h (by omega)

/-- A minute that is stored is not set anew. -/
theorem initLastMinute_of_isMinute {lastMinute : Int} (h : IsMinute lastMinute) (now : Int) :
    initLastMinute lastMinute now = lastMinute := by
  have := h.pos
  rw [initLastMinute, if_neg (by omega)]

/-- **The stored minute** is the latest minute any reading has reached. -/
theorem Pass.next_eq {lastMinute : Int} (hlast : IsMinute lastMinute) {p : Pass}
    (htimely : p.Timely lastMinute) : p.next lastMinute = max lastMinute (startOfMinute p.now) := by
  unfold Pass.Timely at htimely
  unfold Pass.next startPendingTasks
  rw [initLastMinute_of_isMinute hlast] at *
  dsimp only
  by_cases hprogress : lastMinute + minute ≤ p.now
  · have hle : lastMinute ≤ p.now := by unfold minute at hprogress; omega
    have hminutes := minutesPassed_timely hle htimely
    have hone : 1 ≤ (p.now - lastMinute) / minute := by unfold minute at *; omega
    have hstatus : clockStatusOf (minutesPassed lastMinute p.now) ≠ .jumpBackward := by
      rw [hminutes, clockStatusOf, if_neg (by omega)]
      split
      · decide
      · rw [if_pos (by omega)]; decide
    rw [if_neg hstatus, max_eq_right (le_startOfMinute hlast hle)]
  · have hstatus : clockStatusOf (minutesPassed lastMinute p.now) = .jumpBackward := by
      rw [minutesPassed_eq_zero (by omega)]; decide
    rw [if_pos hstatus, max_eq_left (startOfMinute_le hlast (by omega))]

/-- A call that makes no progress adds nothing. -/
theorem Pass.added_of_no_progress {lastMinute : Int} (hlast : IsMinute lastMinute) {p : Pass}
    {jobId : Int} {job : CronJob} (hload : p.Loads jobId job)
    (hseconds : job.schedule.seconds = false) (h : p.now < lastMinute + minute) :
    p.added lastMinute jobId = 0 := by
  obtain ⟨task, _, hadded⟩ := Pass.added_eq hload hseconds lastMinute
  rw [initLastMinute_of_isMinute hlast, minutesPassed_eq_zero h] at hadded
  simpa using hadded

/-- **One call, fixed schedule.** It adds the due minutes the stored minute moves past. -/
theorem Pass.added_fixed {lastMinute : Int} (hlast : IsMinute lastMinute) {p : Pass} {jobId : Int}
    {job : CronJob} (hload : p.Loads jobId job) (hseconds : job.schedule.seconds = false)
    (hfixed : job.schedule.isFloating = false) (htimely : p.Timely lastMinute) :
    p.added lastMinute jobId =
      Grid.count minute job.schedule.matches lastMinute (p.next lastMinute) := by
  rw [Pass.next_eq hlast htimely]
  -- the calls that progress, and those within the last minute
  by_cases hprogress : lastMinute + minute ≤ p.now
  · have hle : lastMinute ≤ p.now := by unfold minute at hprogress; omega
    obtain ⟨task, _, hadded⟩ := Pass.added_eq hload hseconds lastMinute
    unfold Pass.Timely at htimely
    rw [initLastMinute_of_isMinute hlast] at hadded htimely
    have hminutes := minutesPassed_timely hle htimely
    have hone : 1 ≤ (p.now - lastMinute) / minute := by unfold minute at *; omega
    have hstatus : clockStatusOf ((p.now - lastMinute) / minute) = .progressed ∨
        clockStatusOf ((p.now - lastMinute) / minute) = .jumpForward := by
      rw [clockStatusOf, if_neg (by omega)]
      split
      · exact Or.inr rfl
      · exact Or.inl (by rw [if_pos (by omega)])
    rw [hadded, hminutes, if_pos (by omega), max_eq_right (le_startOfMinute hlast hle),
      pendingRunCount_fixed hseconds hfixed hstatus hlast.dvd]
    omega
  · rw [Pass.added_of_no_progress hlast hload hseconds (by omega),
      max_eq_left (startOfMinute_le hlast (by omega)), Grid.count_of_le (le_refl _)]
    rfl

/-- **One call, floating schedule.** Up to five minutes of progress are caught up with; after
    a longer jump only the current minute counts. -/
theorem Pass.added_floating {lastMinute : Int} (hlast : IsMinute lastMinute) {p : Pass}
    {jobId : Int} {job : CronJob} (hload : p.Loads jobId job)
    (hseconds : job.schedule.seconds = false) (hfloating : job.schedule.isFloating = true)
    (hge : lastMinute ≤ p.now) (htimely : p.Timely lastMinute) :
    (minutesPassed lastMinute p.now ≤ 5 →
      p.added lastMinute jobId =
        Grid.count minute job.schedule.matches lastMinute (startOfMinute p.now)) ∧
    (6 ≤ minutesPassed lastMinute p.now →
      p.added lastMinute jobId =
        if job.schedule.matches (startOfMinute p.now) then 1 else 0) := by
  obtain ⟨task, _, hadded⟩ := Pass.added_eq hload hseconds lastMinute
  unfold Pass.Timely at htimely
  rw [initLastMinute_of_isMinute hlast] at hadded htimely
  have hminutes := minutesPassed_timely hge htimely
  rw [hminutes] at hadded ⊢
  have hnonneg : 0 ≤ (p.now - lastMinute) / minute := by unfold minute; omega
  constructor
  · -- up to five minutes each one is visited
    intro hfive
    by_cases hzero : (p.now - lastMinute) / minute = 0
    · rw [if_neg (by omega)] at hadded
      have hsame : startOfMinute p.now = lastMinute := by
        rw [startOfMinute_sub hlast hge, hzero]; omega
      rw [hadded, hsame, Grid.count_of_le (le_refl _)]
      simp
    · have hstatus : clockStatusOf ((p.now - lastMinute) / minute) = .progressed := by
        rw [clockStatusOf, if_neg (by omega), if_neg (by omega), if_pos (by omega)]
      rw [if_pos hzero, hstatus, pendingRunCount_progressed _ hlast.dvd] at hadded
      omega
  · -- from six on only the current one is
    intro hsix
    have hstatus : clockStatusOf ((p.now - lastMinute) / minute) = .jumpForward := by
      rw [clockStatusOf, if_neg (by omega), if_pos (by omega)]
    rw [if_pos (by omega), hstatus,
      pendingRunCount_jumpForward hseconds hfloating hlast.dvd] at hadded
    omega

/-! ### Successive calls -/

/-- The latest minute reached by a minute and the readings of some calls. -/
def latestMinute (m : Int) (passes : List Pass) : Int :=
  (passes.map fun p => startOfMinute p.now).foldl max m

/-- The minute itself is not after the latest. -/
theorem le_latestMinute (m : Int) (passes : List Pass) : m ≤ latestMinute m passes := by
  induction passes generalizing m with
  | nil => exact le_refl m
  | cons p passes ih => exact le_trans (le_max_left m (startOfMinute p.now)) (ih _)

/-- The timely calls of a run, each from the minute that is stored when it is made. -/
def AllTimely (lastMinute : Int) (passes : List Pass) : Prop :=
  Machine.Guarded (fun last p => p.next last) (fun last p => p.Timely last) lastMinute passes

/-- A timely call stores a minute. -/
theorem IsMinute.next {lastMinute : Int} (hlast : IsMinute lastMinute) {p : Pass}
    (htimely : p.Timely lastMinute) : IsMinute (p.next lastMinute) := by
  rw [Pass.next_eq hlast htimely]
  rcases max_cases lastMinute (startOfMinute p.now) with ⟨heq, _⟩ | ⟨heq, hlt⟩
  · rw [heq]; exact hlast
  · rw [heq]
    exact ⟨le_of_lt (lt_of_le_of_lt hlast.le hlt), minute_dvd_startOfMinute p.now⟩

/-- **The stored minute along a run** is the latest minute reached. -/
theorem storedMinute_eq {lastMinute : Int} (hlast : IsMinute lastMinute) {passes : List Pass}
    (htimely : AllTimely lastMinute passes) :
    storedMinute lastMinute passes = latestMinute lastMinute passes := by
  induction passes generalizing lastMinute with
  | nil => rfl
  | cons p passes ih =>
    obtain ⟨hp, hrest⟩ := htimely
    show storedMinute (p.next lastMinute) passes = _
    rw [ih (hlast.next hp) hrest, Pass.next_eq hlast hp]
    rfl

/-- **A run, fixed schedule.** The calls add up the due minutes of one interval. -/
theorem totalAdded_fixed {lastMinute : Int} (hlast : IsMinute lastMinute) {passes : List Pass}
    {jobId : Int} {job : CronJob} (hload : ∀ p ∈ passes, p.Loads jobId job)
    (hseconds : job.schedule.seconds = false) (hfixed : job.schedule.isFloating = false)
    (htimely : AllTimely lastMinute passes) :
    totalAdded jobId lastMinute passes =
      Grid.count minute job.schedule.matches lastMinute (latestMinute lastMinute passes) := by
  induction passes generalizing lastMinute with
  | nil => simp [totalAdded, latestMinute, Grid.count_of_le]
  | cons p passes ih =>
    obtain ⟨hp, hrest⟩ := htimely
    have hnext := Pass.next_eq hlast hp
    have hfirst : lastMinute ≤ p.next lastMinute := by rw [hnext]; exact le_max_left _ _
    have hlatest : latestMinute lastMinute (p :: passes) =
        latestMinute (p.next lastMinute) passes := by rw [hnext]; rfl
    rw [totalAdded, Pass.added_fixed hlast (hload p (by simp)) hseconds hfixed hp,
      ih (hlast.next hp) (fun q hq => hload q (by simp [hq])) hrest, hlatest,
      ← Grid.count_add hfirst (le_latestMinute _ passes)]
    push_cast
    rfl

/-- The first call only stores its minute. -/
theorem Pass.first {p : Pass} (hfirst : minute ≤ p.now) :
    p.next 0 = startOfMinute p.now ∧ IsMinute (startOfMinute p.now) ∧
      ∀ {jobId : Int} {job : CronJob}, p.Loads jobId job → job.schedule.seconds = false →
        p.added 0 jobId = 0 := by
  have hmin := isMinute_startOfMinute hfirst
  have hbounds := startOfMinute_bounds (show 0 ≤ p.now by unfold minute at hfirst; omega)
  have hzero : minutesPassed (startOfMinute p.now) p.now = 0 := minutesPassed_eq_zero hbounds.2
  refine ⟨?_, hmin, ?_⟩
  · unfold Pass.next startPendingTasks initLastMinute
    dsimp only
    rw [if_pos rfl]
    split <;> rfl
  · intro jobId job hload hseconds
    obtain ⟨task, _, hadded⟩ := Pass.added_eq hload hseconds 0
    rw [initLastMinute, if_pos rfl, hzero] at hadded
    simpa using hadded

/-- The stored minute is not ahead of the clock while readings never decrease. -/
theorem latestMinute_le {m now : Int} {passes : List Pass} (hm : m ≤ now)
    (hpos : ∀ p ∈ passes, 0 ≤ p.now) (hle : ∀ p ∈ passes, p.now ≤ now) :
    latestMinute m passes ≤ now := by
  induction passes generalizing m with
  | nil => exact hm
  | cons p passes ih =>
    have hp := (startOfMinute_bounds (hpos p (by simp))).1
    have hp' := hle p (by simp)
    exact ih (max_le hm (le_trans hp hp')) (fun q hq => hpos q (by simp [hq]))
      fun q hq => hle q (by simp [hq])

/-- One call of a run of timely calls with readings that never decrease. -/
theorem Pass.added_floating_after {m : Int} (hm : IsMinute m) {before after : List Pass} {q : Pass}
    (htimely : AllTimely m (before ++ q :: after)) (hmq : m ≤ q.now)
    (hpos : ∀ r ∈ before, 0 ≤ r.now) (hle : ∀ r ∈ before, r.now ≤ q.now) {jobId : Int}
    {job : CronJob} (hload : q.Loads jobId job) (hseconds : job.schedule.seconds = false)
    (hfloating : job.schedule.isFloating = true) :
    IsMinute (storedMinute m before) ∧
    (minutesPassed (storedMinute m before) q.now ≤ 5 → q.added (storedMinute m before) jobId =
      Grid.count minute job.schedule.matches (storedMinute m before) (startOfMinute q.now)) ∧
    (6 ≤ minutesPassed (storedMinute m before) q.now → q.added (storedMinute m before) jobId =
      if job.schedule.matches (startOfMinute q.now) then 1 else 0) := by
  obtain ⟨hbefore, hq, _⟩ := (Machine.guarded_append _ _ _ _).mp htimely
  have hstored : IsMinute (storedMinute m before) :=
    Machine.guarded_induction (fun _ _ hg hmin => hmin.next hg) hbefore hm
  have hge : storedMinute m before ≤ q.now := by
    rw [storedMinute_eq hm hbefore]
    exact latestMinute_le hmq hpos hle
  exact ⟨hstored, Pass.added_floating hstored hload hseconds hfloating hge hq⟩

/-- **Exactly-once minute accounting.**  Successive calls start with no stored minute, the
    first reading is at least a minute after the epoch, and no reading is more than 180 whole
    minutes past the stored minute; they may go backward.  (a) For a fixed schedule the calls
    add as many runs as there are due minutes after the first reading's minute, up to the
    latest minute reached.  (b) For a floating schedule and readings that never decrease, each
    call adds the due minutes up to its own while at most five have passed, and otherwise one
    run if the current minute is due. -/
theorem startPendingTasks_accounts (p : Pass) (passes : List Pass) (jobId : Int) (job : CronJob)
    (hload : ∀ q ∈ p :: passes, q.Loads jobId job) (hseconds : job.schedule.seconds = false)
    (hfirst : minute ≤ p.now) (htimely : AllTimely 0 (p :: passes)) :
    (job.schedule.isFloating = false →
      totalAdded jobId 0 (p :: passes) =
        Grid.count minute job.schedule.matches (startOfMinute p.now)
          (latestMinute (startOfMinute p.now) passes)) ∧
    (job.schedule.isFloating = true → ((p :: passes).map Pass.now).Pairwise (· ≤ ·) →
      ∀ before q after, p :: passes = before ++ q :: after →
        let stored : Int := storedMinute 0 before
        let last : Int := initLastMinute stored q.now
        (minutesPassed last q.now ≤ 5 → q.added stored jobId =
          (Grid.count minute job.schedule.matches last (startOfMinute q.now) : Int)) ∧
        (6 ≤ minutesPassed last q.now → q.added stored jobId =
          if job.schedule.matches (startOfMinute q.now) then 1 else 0)) := by
  obtain ⟨hnext, hmin, hzero⟩ := Pass.first hfirst
  have hrest : AllTimely (startOfMinute p.now) passes := hnext ▸ htimely.2
  have hnonneg : 0 ≤ p.now := by unfold minute at hfirst; omega
  have hbounds := startOfMinute_bounds hnonneg
  refine ⟨fun hfixed => ?_, fun hfloating hsorted before q after hsplit => ?_⟩
  · rw [totalAdded, hzero (hload p (by simp)) hseconds, hnext,
      totalAdded_fixed hmin (fun q hq => hload q (by simp [hq])) hseconds hfixed hrest]
    simp
  · cases before with
    | nil =>
      -- the first call adds nothing, and no minute lies between its reading and itself
      obtain ⟨rfl, rfl⟩ : p = q ∧ passes = after := by simpa using hsplit
      have hlast : initLastMinute (storedMinute 0 []) p.now = startOfMinute p.now := if_pos rfl
      dsimp only
      rw [hlast, minutesPassed_eq_zero hbounds.2]
      refine ⟨fun _ => ?_, fun hsix => absurd hsix (by decide)⟩
      show p.added 0 jobId = _
      rw [hzero (hload p (by simp)) hseconds, Grid.count_of_le (le_refl _)]
      rfl
    | cons p' before =>
      obtain ⟨rfl, rfl⟩ : p = p' ∧ passes = before ++ q :: after := by simpa using hsplit
      have hstored : storedMinute 0 (p :: before) = storedMinute (startOfMinute p.now) before := by
        show storedMinute (p.next 0) before = _
        rw [hnext]
      rw [List.map_cons, List.pairwise_cons, List.map_append, List.map_cons,
        List.pairwise_append] at hsorted
      obtain ⟨hp, _, _, hcross⟩ := hsorted
      have hpos : ∀ r ∈ before, 0 ≤ r.now := fun r hr =>
        le_trans hnonneg
          (hp r.now (by simp only [List.mem_append, List.mem_map]; exact Or.inl ⟨r, hr, rfl⟩))
      have hle : ∀ r ∈ before, r.now ≤ q.now := fun r hr =>
        hcross r.now (List.mem_map.mpr ⟨r, hr, rfl⟩) q.now (by simp)
      obtain ⟨hlast, hcall⟩ := Pass.added_floating_after hmin hrest
        (le_trans hbounds.1 (hp q.now (by simp))) hpos hle (hload q (by simp)) hseconds hfloating
      dsimp only
      rw [hstored, initLastMinute_of_isMinute hlast]
      exact hcall

/-- A job due at 00:01 and 00:03, its task, and three readings of the clock, the last of them
    behind the one before. -/
def minuteJob : CronJob where
  jobId := 7
  scheduleText := ascii "1,3 0 * * *"
  schedule := (parse (ascii "1,3 0 * * *")).getD CronSchedule.zero
  command := ascii "SELECT 1"
  nodeName := ascii "localhost"
  nodePort := 5432
  database := ascii "postgres"
  userName := ascii "postgres"

/-- A call with the job and its task. -/
def minutePass (now : Int) : Pass where
  jobs := AList.insert 7 minuteJob ∅
  tasks := AList.insert 7 (initCronTask clearedEntry 7) ∅
  now := now

/-- The theorem at readings 00:01:00, 00:03:30 and 00:02:00. -/
theorem startPendingTasks_accounts_backward :
    totalAdded 7 0 [minutePass 60000000, minutePass 210000000, minutePass 120000000] =
      Grid.count minute minuteJob.schedule.matches 60000000 180000000 := by
  have hload : ∀ q ∈ [minutePass 60000000, minutePass 210000000, minutePass 120000000],
      q.Loads 7 minuteJob := by
    have hpass : ∀ now, (minutePass now).Loads 7 minuteJob := fun now =>
      ⟨AList.lookup_insert _, initCronTask clearedEntry 7, AList.lookup_insert _, rfl⟩
    intro q hq
    simp only [List.mem_cons, List.not_mem_nil, or_false] at hq
    rcases hq with rfl | rfl | rfl <;> exact hpass _
  have htimely : AllTimely 0 [minutePass 60000000, minutePass 210000000, minutePass 120000000] :=
    ⟨(by decide : Pass.Timely 0 _), (by decide : Pass.Timely (Pass.next _ 0) _),
      (by decide : Pass.Timely (Pass.next _ (Pass.next _ 0)) _), trivial⟩
  exact (startPendingTasks_accounts (minutePass 60000000)
    [minutePass 210000000, minutePass 120000000] 7 minuteJob hload (by decide +kernel)
    (by decide) htimely).1 (by decide +kernel)

end NedoCron
