import NedoCron.Conservation
import NedoCron.Lib.Ticker
import NedoCron.ParserSound
import Mathlib.Data.List.Induction

namespace NedoCron

/-!
# nedo_cron — the pace of seconds jobs

The task of an `N seconds` job is a timer of `Lib/Ticker.lean`: `nextRunTime` is the armed time,
and 0 stands for a timer that is not armed.  The time is kept in the task while the interval is
read from the job, which a reload may replace.

* `CronTask.timer`, `timer_startSecondIntervalTask` — a pass is a reading of the timer;
* `withinInterval_iff` — when the next run is due within the interval of the job;
* `nextRunTime_armed`, `inReach_of_steady` — so it is unless an interval is shortened or the clock
  is set back;
* `seconds_keepPace` — the runs of a job that stays as it is are its interval apart.
-/

/-! ### Passes -/

/-- `N` seconds, in microseconds. -/
def CronSchedule.interval (schedule : CronSchedule) : Int :=
  1000 * schedule.secondsInterval * 1000

/-- The timer of a task. -/
def CronTask.timer (task : CronTask) : Option Int :=
  if task.nextRunTime = 0 then none else some task.nextRunTime

/-- The next time after a pass. -/
theorem nextRunTime_startSecondIntervalTask (schedule : CronSchedule) (currentTime : Int)
    (task : CronTask) :
    (startSecondIntervalTask schedule currentTime task).nextRunTime =
      if task.nextRunTime = 0 ∨ task.nextRunTime ≤ currentTime then
        currentTime + schedule.interval
      else task.nextRunTime := by
  unfold startSecondIntervalTask CronSchedule.interval timestampTzPlusMilliseconds
  dsimp only
  by_cases hzero : task.nextRunTime = 0
  · rw [if_pos hzero, if_pos (Or.inl hzero)]
    split <;> rfl
  · rw [if_neg hzero, timestampDifferenceExceeds_zero]
    by_cases hle : task.nextRunTime ≤ currentTime
    · rw [if_pos (decide_eq_true hle), if_pos (Or.inr hle)]
    · rw [if_neg (by simpa using hle), if_neg (not_or.mpr ⟨hzero, hle⟩)]

/-- **A pass is a reading of the timer**, as long as the armed time is not mistaken for none. -/
theorem timer_startSecondIntervalTask (schedule : CronSchedule) {currentTime : Int}
    (hnow : currentTime + schedule.interval ≠ 0) (task : CronTask) :
    (startSecondIntervalTask schedule currentTime task).timer =
      Ticker.read schedule.interval task.timer currentTime := by
  unfold CronTask.timer
  rw [nextRunTime_startSecondIntervalTask]
  by_cases hzero : task.nextRunTime = 0
  · rw [if_pos (Or.inl hzero), if_neg hnow, if_pos hzero, Ticker.read]
  · rw [if_neg hzero, Ticker.read]
    by_cases hle : task.nextRunTime ≤ currentTime
    · rw [if_pos (Or.inr hle), if_neg hnow, if_pos hle]
    · rw [if_neg (not_or.mpr ⟨hzero, hle⟩), if_neg hzero, if_neg hle]

/-- A pass adds a run when the timer fires and no run is pending. -/
theorem secondIntervalIncrements_eq (schedule : CronSchedule) {currentTime : Int}
    (hinterval : 0 < schedule.interval) (task : CronTask) :
    secondIntervalIncrements schedule currentTime task =
      if Ticker.due task.timer currentTime = true ∧ task.pendingRunCount = 0 then 1 else 0 := by
  unfold secondIntervalIncrements CronTask.timer Ticker.due
  dsimp only
  unfold CronSchedule.interval at hinterval
  by_cases hzero : task.nextRunTime = 0
  · rw [if_pos hzero, if_pos hzero, timestampDifferenceExceeds_zero, timestampTzPlusMilliseconds,
      if_neg (by simp; omega), if_neg (by simp)]
  · rw [if_neg hzero, if_neg hzero, timestampDifferenceExceeds_zero, Option.any_some]
    by_cases hle : task.nextRunTime ≤ currentTime
    · simp [hle]
    · simp [hle]

/-! ### What a turn leaves alone -/

/-- A turn does not add to the queue. -/
theorem QueueChange.le {task task' : CronTask} (h : QueueChange task task') :
    task'.pendingRunCount ≤ task.pendingRunCount := by
  cases h with
  | kept h => exact le_of_eq h
  | taken hstate hpending h => omega
  | cut hstate hmax h => omega

/-! ### Intervals -/

/-- The interval of a loaded seconds job is one to 59 seconds. -/
def World.IntervalsOk (w : World) : Prop :=
  ∀ k job, getCronJob w.jobs k = some job → job.schedule.seconds = true →
    1 ≤ job.schedule.secondsInterval ∧ job.schedule.secondsInterval ≤ 59

/-- A loaded job comes from a row. -/
theorem row_of_loadJobsList {recoveryInProgress cronLoaded : Bool} {table : JobsTable} {k : Int}
    {job : CronJob}
    (h : getCronJob (loadJobsList recoveryInProgress cronLoaded table) k = some job) :
    ∃ row ∈ table.rows, row.jobid = k ∧ row.toJob = some job := by
  cases recoveryInProgress with
  | true => exact absurd h (by simp [loadJobsList, getCronJob])
  | false =>
    cases cronLoaded with
    | true => exact (lookup_loadJobsList table k job).mp h
    | false => exact absurd h (by simp [loadJobsList, getCronJob])

/-- The parser accepts 1 to 59 seconds. -/
theorem toJob_interval {row : JobRow} {job : CronJob} (h : row.toJob = some job)
    (hseconds : job.schedule.seconds = true) :
    1 ≤ job.schedule.secondsInterval ∧ job.schedule.secondsInterval ≤ 59 := by
  unfold JobRow.toJob at h
  obtain ⟨schedule, hparse, rfl⟩ := Option.map_eq_some_iff.mp h
  rcases strSplit_of_accepted hparse with ⟨_, _, -, -, hcount⟩ | ⟨_, _, _, _, _, hsplit⟩
  · obtain ⟨n, -, hlow, hhigh, rfl⟩ := parseSeconds_some hcount
    exact ⟨hlow, hhigh⟩
  · obtain ⟨r, hdenotes⟩ := parseWithError_five hsplit hparse
    rw [show schedule.seconds = false from hdenotes.seconds] at hseconds
    cases hseconds

/-- Every step keeps this: the jobs come from the parser. -/
theorem intervalsOk_step {w : World} (h : w.IntervalsOk) (l : Label) : (w.step l).IntervalsOk := by
  intro k job hjob hseconds
  rcases jobs_step w l with hsame | ⟨source, currentTime, -, hloaded⟩
  · rw [hsame] at hjob
    exact h k job hjob hseconds
  · rw [hloaded] at hjob
    obtain ⟨row, -, -, htoJob⟩ := row_of_loadJobsList hjob
    exact toJob_interval htoJob hseconds

/-- So intervals are positive. -/
theorem World.IntervalsOk.pos {w : World} (h : w.IntervalsOk) {k : Int} {job : CronJob}
    (hjob : getCronJob w.jobs k = some job) (hseconds : job.schedule.seconds = true) :
    0 < job.schedule.interval := by
  obtain ⟨hlow, -⟩ := h k job hjob hseconds
  unfold CronSchedule.interval
  omega

/-- What a worker keeps that paces its seconds jobs. -/
theorem reached_paced (statementTimeout : StatementTimeout) (history : History)
    (ls : List Label) :
    let w := Machine.run World.step (World.launch statementTimeout history) ls
    w.Accounted ∧ w.IntervalsOk :=
  Machine.run_induction (P := fun w : World => w.Accounted ∧ w.IntervalsOk)
    (fun _ l h => ⟨h.1.step l, intervalsOk_step h.2 l⟩) ls
    ⟨accounted_launch statementTimeout history,
      fun k job h => absurd h (by simp [World.launch, getCronJob])⟩

/-! ### The next run within the interval -/

/-- After a scheduling pass at `now`, the next run of every seconds job is due within its
    interval. -/
def World.WithinInterval (w : World) : Label → Prop
  | .startPending now => ∀ k task job,
    (w.step (.startPending now)).tasks.lookup k = some task →
    getCronJob w.jobs k = some job → job.schedule.seconds = true →
      now < task.nextRunTime ∧
        task.nextRunTime ≤ now + job.schedule.secondsInterval * 1000 * 1000
  | _ => True

/-- A scheduling pass at `now` finds no seconds job armed for a time beyond its interval. -/
def World.InReach (w : World) : Label → Prop
  | .startPending now => ∀ k task job, w.tasks.lookup k = some task →
    getCronJob w.jobs k = some job → job.schedule.seconds = true →
      task.nextRunTime = 0 ∨ task.nextRunTime ≤ now + job.schedule.secondsInterval * 1000 * 1000
  | _ => True

/-- The pass of a seconds job. -/
theorem schedulePendingTask_seconds {jobs : Table Int CronJob} {task : CronTask} {job : CronJob}
    (hjob : getCronJob jobs task.jobId = some job) (hseconds : job.schedule.seconds = true)
    (lastMinute currentTime : Int) :
    schedulePendingTask jobs lastMinute currentTime task =
      startSecondIntervalTask job.schedule currentTime task := by
  unfold schedulePendingTask
  dsimp only
  rw [hjob]
  exact if_pos hseconds

/-- **One pass**, for the task of a seconds job. -/
theorem within_pass_iff (schedule : CronSchedule) (hinterval : 0 < schedule.interval)
    (now : Int) (task : CronTask) :
    (now < (startSecondIntervalTask schedule now task).nextRunTime ∧
      (startSecondIntervalTask schedule now task).nextRunTime ≤ now + schedule.interval) ↔
    (task.nextRunTime = 0 ∨ task.nextRunTime ≤ now + schedule.interval) := by
  rw [nextRunTime_startSecondIntervalTask]
  by_cases hread : task.nextRunTime = 0 ∨ task.nextRunTime ≤ now
  · rw [if_pos hread]
    omega
  · rw [if_neg hread]
    omega

/-- What a pass leaves is within the interval just when it found the timer in reach. -/
theorem withinInterval_step_iff {w : World} (hok : WorldOk w) (hintervals : w.IntervalsOk)
    (l : Label) : w.WithinInterval l ↔ w.InReach l := by
  cases l with
  | startPending now =>
    -- every task after the pass is the pass of a task before it
    have hpass : ∀ {k task job}, w.tasks.lookup k = some task → getCronJob w.jobs k = some job →
        job.schedule.seconds = true →
        (w.step (.startPending now)).tasks.lookup k =
          some (startSecondIntervalTask job.schedule now task) := by
      intro k task job hlookup hjob hseconds
      have hkeyed : getCronJob w.jobs task.jobId = some job := by
        rw [(hok.tasks k task hlookup).keyed, hjob]
      rw [World.step, lookup_startPending, hlookup, Option.map_some,
        schedulePendingTask_seconds hkeyed hseconds]
    have hunit : ∀ schedule : CronSchedule,
        schedule.secondsInterval * 1000 * 1000 = schedule.interval := by
      intro schedule
      rw [CronSchedule.interval, Int.mul_comm schedule.secondsInterval]
    simp only [World.WithinInterval, World.InReach, hunit]
    constructor
    · intro h k task job hlookup hjob hseconds
      rw [← within_pass_iff job.schedule (hintervals.pos hjob hseconds) now task]
      exact h k _ job (hpass hlookup hjob hseconds) hjob hseconds
    · intro h k task' job hlookup' hjob hseconds
      have hlookup := hlookup'
      rw [World.step, lookup_startPending, Option.map_eq_some_iff] at hlookup
      obtain ⟨task, hlookup, -⟩ := hlookup
      rw [hpass hlookup hjob hseconds] at hlookup'
      obtain rfl := Option.some.inj hlookup'
      rw [within_pass_iff job.schedule (hintervals.pos hjob hseconds) now task]
      exact h k task job hlookup hjob hseconds
  | _ => exact Iff.rfl

/-- **The next run within the interval**: along every run of the worker, each pass leaves the next
    run of each seconds job due within the interval of the job if and only if each pass finds no
    seconds job armed for a later time than that. -/
theorem withinInterval_iff (statementTimeout : StatementTimeout) (history : History)
    (ls : List Label) :
    Machine.Guarded World.step World.WithinInterval (World.launch statementTimeout history) ls ↔
      Machine.Guarded World.step World.InReach (World.launch statementTimeout history) ls := by
  have hpaced : Machine.Guarded World.step (fun w _ => WorldOk w ∧ w.IntervalsOk)
      (World.launch statementTimeout history) ls := by
    refine Machine.guarded_of_invariant (P := fun w : World => WorldOk w ∧ w.IntervalsOk)
      (fun _ l h => ⟨h.1.step l, intervalsOk_step h.2 l⟩) ls ?_
    obtain ⟨haccounted, hintervals⟩ := reached_paced statementTimeout history []
    exact ⟨haccounted.ok, hintervals⟩
  constructor
  · intro h
    exact Machine.guarded_mono (fun w l hboth =>
      (withinInterval_step_iff hboth.2.1 hboth.2.2 l).mp hboth.1) (Machine.guarded_and h hpaced)
  · intro h
    exact Machine.guarded_mono (fun w l hboth =>
      (withinInterval_step_iff hboth.2.1 hboth.2.2 l).mpr hboth.1) (Machine.guarded_and h hpaced)

/-- An `UPDATE` shortens the interval of a job from 59 seconds to 5. -/
def shortened : List Label :=
  [.reload (oneRow { secondsRow (ascii "alice") (ascii "SELECT 1") with
      schedule := ascii "59 seconds" }) 1000000, .startPending 1000000,
    .reload (oneRow (secondsRow (ascii "alice") (ascii "SELECT 1"))) 2000000,
    .startPending 2000000]

/-- The job still waits for the end of the old interval. -/
theorem not_withinInterval :
    ¬Machine.Guarded World.step World.WithinInterval (World.launch defaultTimeout emptyHistory)
      shortened := by
  intro h
  obtain ⟨-, -, -, hpass, -⟩ := h
  have hwithin := hpass 7 { initCronTask clearedEntry 7 with nextRunTime := 60000000 }
    (secondsJob (ascii "alice") (ascii "SELECT 1")) (by decide +kernel) (by decide +kernel) rfl
  exact absurd hwithin.2 (by decide)

/-! ### Steady runs -/

/-- Minutes do not touch the next time of a seconds job. -/
theorem startPendingTask_nextRunTime (schedule : CronSchedule) (clockStatus : ClockStatus)
    (lastMinute currentTime : Int) (task : CronTask) :
    (startPendingTask schedule clockStatus lastMinute currentTime task).nextRunTime =
      task.nextRunTime := by
  have henqueue : ∀ (t : CronTask) (due : Bool), (t.enqueueIf due).nextRunTime = t.nextRunTime := by
    intro t due
    cases due <;> rfl
  cases clockStatus with
  | progressed => rfl
  | jumpForward => exact henqueue _ _
  | jumpBackward => exact henqueue _ _
  | change => exact henqueue _ _

/-- What a step makes of the next time: a pass of a seconds job arms it, and nothing else
    changes it. -/
theorem nextRunTime_step {w : World} (hok : WorldOk w) {l : Label} {k : Int} {task' : CronTask}
    (hlookup : (w.step l).tasks.lookup k = some task') (hne : task'.nextRunTime ≠ 0) :
    (∃ task, w.tasks.lookup k = some task ∧ task'.nextRunTime = task.nextRunTime) ∨
      ∃ now job, l = .startPending now ∧ getCronJob w.jobs k = some job ∧
        job.schedule.seconds = true ∧ task'.nextRunTime = now + job.schedule.interval := by
  rcases task_step hlookup with ⟨task, hold, hstep⟩ | ⟨source, currentTime, -, -, rfl⟩
  · cases hstep with
    | untouched l => exact Or.inl ⟨task', hold, rfl⟩
    | marked source currentTime => exact Or.inl ⟨task, hold, rfl⟩
    | unready io => exact Or.inl ⟨task, hold, rfl⟩
    | awaited io => exact Or.inl ⟨task, hold, awaitTask_nextRunTime io k task.unready⟩
    | turned currentTime gap io task' hkept =>
      exact Or.inl ⟨task, hold, ((turn_outcome w task currentTime gap io).queue hkept).1⟩
    | scheduled now =>
      have hkeyed := (hok.tasks k task hold).keyed
      by_cases hsame : (schedulePendingTask w.jobs (initLastMinute w.lastMinute now) now
          task).nextRunTime = task.nextRunTime
      · exact Or.inl ⟨task, hold, hsame⟩
      · -- only the pass of a seconds job changes the time
        cases hjob : getCronJob w.jobs k with
        | none =>
          refine absurd ?_ hsame
          rw [schedulePendingTask, hkeyed, hjob]
        | some job =>
          by_cases hseconds : job.schedule.seconds = true
          · rw [schedulePendingTask_seconds (hkeyed ▸ hjob) hseconds] at hsame ⊢
            rw [nextRunTime_startSecondIntervalTask] at hsame ⊢
            refine Or.inr ⟨now, job, rfl, rfl, hseconds, ?_⟩
            exact if_pos (by_contra fun hnot => hsame (if_neg hnot))
          · refine absurd ?_ hsame
            rw [schedulePendingTask, hkeyed, hjob]
            dsimp only
            rw [if_neg hseconds]
            split
            · exact startPendingTask_nextRunTime _ _ _ _ _
            · rfl
  · exact absurd rfl hne

/-- **Who armed the timer**: the time of a task was set by an earlier pass, under the interval the
    job had then. -/
theorem nextRunTime_armed (statementTimeout : StatementTimeout) (history : History)
    (ls : List Label) {k : Int} {task : CronTask}
    (hlookup : (Machine.run World.step (World.launch statementTimeout history) ls).tasks.lookup k =
      some task) (hne : task.nextRunTime ≠ 0) :
    ∃ before now after job, ls = before ++ .startPending now :: after ∧
      getCronJob (Machine.run World.step (World.launch statementTimeout history) before).jobs k =
        some job ∧ job.schedule.seconds = true ∧
      task.nextRunTime = now + job.schedule.interval := by
  induction ls using List.reverseRecOn generalizing task with
  | nil => exact absurd hlookup (by simp [World.launch])
  | append_singleton ls l ih =>
    rw [Machine.run_append, Machine.run_cons, Machine.run_nil] at hlookup
    have hok := (reached_paced statementTimeout history ls).1.ok
    rcases nextRunTime_step hok hlookup hne with ⟨old, hold, hsame⟩ |
      ⟨now, job, rfl, hjob, hseconds, harmed⟩
    · obtain ⟨before, now, after, job, rfl, hjob, hseconds, harmed⟩ :=
        ih hold (hsame ▸ hne)
      exact ⟨before, now, after ++ [l], job, by simp, hjob, hseconds, hsame.trans harmed⟩
    · exact ⟨ls, now, [], job, rfl, hjob, hseconds, harmed⟩

/-- The clock does not step back between two passes, and no interval is shortened. -/
def Steady (statementTimeout : StatementTimeout) (history : History) (ls : List Label) : Prop :=
  ∀ before now mid now' after,
    ls = before ++ .startPending now :: (mid ++ .startPending now' :: after) →
    now ≤ now' ∧ ∀ k job job',
      getCronJob (Machine.run World.step (World.launch statementTimeout history) before).jobs k =
        some job →
      getCronJob (Machine.run World.step (World.launch statementTimeout history)
        (before ++ .startPending now :: mid)).jobs k = some job' →
      job.schedule.seconds = true → job'.schedule.seconds = true →
      job.schedule.secondsInterval ≤ job'.schedule.secondsInterval

/-- **Steady runs** keep every seconds job within its interval. -/
theorem inReach_of_steady (statementTimeout : StatementTimeout) (history : History)
    (ls : List Label) (hsteady : Steady statementTimeout history ls) :
    Machine.Guarded World.step World.InReach (World.launch statementTimeout history) ls := by
  apply Machine.guarded_of_split
  intro before l after heq
  cases l with
  | startPending now' =>
    intro k task job' hlookup hjob' hseconds'
    by_cases hzero : task.nextRunTime = 0
    · exact Or.inl hzero
    · right
      obtain ⟨first, now, mid, job, rfl, hjob, hseconds, harmed⟩ :=
        nextRunTime_armed statementTimeout history before hlookup hzero
      obtain ⟨hle, hintervals⟩ := hsteady first now mid now' after (by
        rw [heq, List.append_assoc, List.cons_append])
      have hinterval := hintervals k job job' hjob hjob' hseconds hseconds'
      rw [harmed, CronSchedule.interval]
      omega
  | _ => trivial

/-! ### A job that stays as it is -/

/-- The clock reading of a scheduling pass. -/
def Label.passTime : Label → Option Int
  | .startPending now => some now
  | _ => none

/-- The clock readings of the scheduling passes. -/
def passTimes (ls : List Label) : List Int := ls.filterMap Label.passTime

/-- The counter of the task of a job, 0 without one. -/
def World.pendingOf (w : World) (k : Int) : Int :=
  match w.tasks.lookup k with
  | some task => task.pendingRunCount
  | none => 0

/-- The counter of a job with a task. -/
theorem World.pendingOf_eq {w : World} {k : Int} {task : CronTask}
    (h : w.tasks.lookup k = some task) : w.pendingOf k = task.pendingRunCount := by
  rw [World.pendingOf, h]

/-- The clock readings of the passes that raise the counter of a job. -/
def World.incrementTimes (k : Int) : World → List Label → List Int
  | _, [] => []
  | w, l :: ls =>
    (if w.pendingOf k < (w.step l).pendingOf k then l.passTime.toList else []) ++
      World.incrementTimes k (w.step l) ls

/-- A reload leaves the job loaded with the same schedule. -/
def Label.keepsSchedule (k : Int) (schedule : CronSchedule) : Label → Prop
  | .reload source _ => ∃ job,
    getCronJob (loadJobsList source.recoveryInProgress source.cronLoaded source.table) k =
      some job ∧ job.schedule = schedule
  | _ => True

/-- A job that keeps its schedule stays loaded. -/
theorem Label.keepsSchedule.keepsLoaded {k : Int} {schedule : CronSchedule} {l : Label}
    (h : l.keepsSchedule k schedule) : l.keepsLoaded k := by
  cases l with
  | reload source currentTime =>
    obtain ⟨job, hjob, -⟩ := h
    show (getCronJob _ k).isSome = true
    rw [hjob]
    rfl
  | _ => trivial

/-- A job that is loaded stays loaded with its schedule. -/
theorem Label.keepsSchedule.loaded {k : Int} {schedule : CronSchedule} {w : World} {l : Label}
    (hkeeps : l.keepsSchedule k schedule)
    (h : ∃ job, getCronJob w.jobs k = some job ∧ job.schedule = schedule) :
    ∃ job, getCronJob (w.step l).jobs k = some job ∧ job.schedule = schedule := by
  rcases jobs_step w l with hsame | ⟨source, currentTime, rfl, hloaded⟩
  · rw [hsame]
    exact h
  · rw [hloaded]
    exact hkeeps

/-- The task of a seconds job with the given schedule. -/
structure World.Paces (w : World) (k : Int) (schedule : CronSchedule) (task : CronTask) :
    Prop where
  accounted : w.Accounted
  loaded : ∃ job, getCronJob w.jobs k = some job ∧ job.schedule = schedule
  seconds : schedule.seconds = true
  interval : 0 < schedule.interval
  lookup : w.tasks.lookup k = some task

/-- **A step** reads the timer, or leaves it alone and does not add to the queue. -/
theorem World.Paces.step {w : World} {k : Int} {schedule : CronSchedule} {task : CronTask}
    (h : w.Paces k schedule task) {l : Label} (hkeeps : l.keepsSchedule k schedule) :
    ∃ task', (w.step l).Paces k schedule task' ∧
      ((∃ now, l = .startPending now ∧ task' = startSecondIntervalTask schedule now task ∧
          w.increments k l = secondIntervalIncrements schedule now task) ∨
        (l.passTime = none ∧ w.increments k l = 0 ∧ task'.nextRunTime = task.nextRunTime ∧
          task'.pendingRunCount ≤ task.pendingRunCount)) := by
  obtain ⟨job, hjob, hschedule⟩ := h.loaded
  have hloaded' : ∃ job, getCronJob (w.step l).jobs k = some job ∧ job.schedule = schedule := by
    rcases jobs_step w l with hsame | ⟨source, currentTime, rfl, hloaded⟩
    · exact ⟨job, hsame ▸ hjob, hschedule⟩
    · exact hloaded ▸ hkeeps
  have hpaces : ∀ task', (w.step l).tasks.lookup k = some task' →
      (w.step l).Paces k schedule task' := fun task' hlookup' =>
    ⟨h.accounted.step l, hloaded', h.seconds, h.interval, hlookup'⟩
  cases l with
  | startPending now =>
    have hkeyed : getCronJob w.jobs task.jobId = some job := by
      rw [(h.accounted.ok.tasks k task h.lookup).keyed, hjob]
    have hseconds : job.schedule.seconds = true := hschedule ▸ h.seconds
    refine ⟨startSecondIntervalTask schedule now task, hpaces _ ?_, Or.inl ⟨now, rfl, rfl, ?_⟩⟩
    · rw [World.step, lookup_startPending, h.lookup, Option.map_some,
        schedulePendingTask_seconds hkeyed hseconds, hschedule]
    · rw [World.increments, h.lookup]
      dsimp only
      rw [passIncrements, hkeyed]
      dsimp only
      rw [if_pos hseconds, hschedule]
  | reload source currentTime =>
    have hmem : k ∈ (w.reload source currentTime).jobs.keys := by
      obtain ⟨job', hjob', -⟩ := hloaded'
      exact AList.mem_keys.mpr (AList.lookup_isSome.mp (by
        rw [show (w.reload source currentTime).jobs.lookup k = some job' from hjob']
        rfl))
    refine ⟨{ task with isActive := true }, hpaces _ ?_, Or.inr ⟨rfl, rfl, rfl, le_refl _⟩⟩
    rw [World.step, lookup_reload, if_pos hmem, h.lookup]
    rfl
  | wait io =>
    have hlookup' := lookup_wait w io k
    rw [h.lookup, Option.map_some] at hlookup'
    refine ⟨_, hpaces _ hlookup', Or.inr ⟨rfl, rfl, ?_⟩⟩
    split
    · exact ⟨rfl, le_refl _⟩
    · exact ⟨awaitTask_nextRunTime io k task.unready,
        le_of_eq (awaitTask_pendingRunCount io k task.unready)⟩
  | manage jobId currentTime gap io =>
    by_cases hk : k = jobId
    · subst hk
      -- the task of a loaded job survives its turn
      obtain ⟨task', hkept, -⟩ := h.accounted.turn (by rw [hjob]; rfl) h.lookup currentTime gap io
      have hlookup' : (w.manage k currentTime gap io).tasks.lookup k = some task' := by
        rw [lookup_manage_self h.lookup]
        change Fate.task (w.turn task currentTime gap io).fate = _
        rw [hkept]
        rfl
      obtain ⟨hnext, hchange⟩ := (turn_outcome w task currentTime gap io).queue hkept
      exact ⟨task', hpaces _ hlookup', Or.inr ⟨rfl, rfl, hnext, hchange.le⟩⟩
    · refine ⟨task, hpaces _ ?_, Or.inr ⟨rfl, rfl, rfl, le_refl _⟩⟩
      rw [World.step, lookup_manage_ne hk, h.lookup]
  | _ => exact ⟨task, hpaces _ h.lookup, Or.inr ⟨rfl, rfl, rfl, le_refl _⟩⟩

/-- **The passes that add a run** are among the firings of the timer, and the queue is 0 or 1.
    By induction on the run, with the timer as the state carried along. -/
theorem World.Paces.run {w : World} {k : Int} {schedule : CronSchedule} {task : CronTask}
    (h : w.Paces k schedule task) (hpending : task.pendingRunCount = 0 ∨ task.pendingRunCount = 1)
    {ls : List Label} (hkeeps : ∀ l ∈ ls, l.keepsSchedule k schedule)
    (hpos : ∀ now ∈ passTimes ls, 0 < now) :
    (w.incrementTimes k ls).Sublist
        (Ticker.firings schedule.interval task.timer (passTimes ls)) ∧
      ∃ task', (Machine.run World.step w ls).Paces k schedule task' ∧
        (task'.pendingRunCount = 0 ∨ task'.pendingRunCount = 1) := by
  induction ls generalizing w task with
  | nil => exact ⟨List.Sublist.refl _, task, h, hpending⟩
  | cons l ls ih =>
    obtain ⟨task', h', hstep⟩ := h.step (hkeeps l List.mem_cons_self)
    have hnonneg := h'.accounted.nonneg k task' h'.lookup
    have hkeeps' : ∀ l ∈ ls, l.keepsSchedule k schedule := fun l hl =>
      hkeeps l (List.mem_cons_of_mem _ hl)
    rw [World.incrementTimes, Machine.run_cons, World.pendingOf_eq h.lookup,
      World.pendingOf_eq h'.lookup]
    rcases hstep with ⟨now, rfl, rfl, -⟩ | ⟨hnone, -, hnext, hle⟩
    · -- a pass reads the timer
      have hreadings : passTimes (.startPending now :: ls) = now :: passTimes ls := rfl
      rw [hreadings] at hpos ⊢
      have hnow := hpos now List.mem_cons_self
      have hinterval := h.interval
      have htimer := @timer_startSecondIntervalTask schedule now (by omega) task
      have hcount := startSecondIntervalTask_pending schedule now task
      rw [secondIntervalIncrements_eq schedule h.interval] at hcount
      obtain ⟨hsub, hrest⟩ := ih h' (by split at hcount <;> omega) hkeeps' fun now' hnow' =>
        hpos now' (List.mem_cons_of_mem _ hnow')
      rw [htimer] at hsub
      refine ⟨?_, hrest⟩
      rw [Ticker.firings]
      refine List.Sublist.append ?_ hsub
      by_cases hdue : Ticker.due task.timer now = true
      · rw [if_pos hdue]
        split
        · exact List.Sublist.refl _
        · exact List.nil_sublist _
      · -- before the next time the counter stays
        rw [if_neg fun h => hdue h.1, Int.add_zero] at hcount
        rw [if_neg hdue, if_neg (by rw [hcount]; exact lt_irrefl _)]
    · have hreadings : passTimes (l :: ls) = passTimes ls := by
        rw [passTimes, List.filterMap_cons, hnone]
        rfl
      have htimer : task'.timer = task.timer := by
        unfold CronTask.timer
        rw [hnext]
      rw [hreadings] at hpos ⊢
      rw [if_neg (not_lt.mpr hle), List.nil_append, ← htimer]
      exact ih h' (by omega) hkeeps' hpos

/-- **Seconds jobs keep their pace.**  Take the task that a reload has just created for a job of
    `N` seconds, and any run whose reloads leave that schedule as it is and whose scheduling passes
    read a positive clock.  Two passes that add a run are at least `N` seconds apart, the first is
    at least `N` seconds after the first pass, no more than one run is ever pending, and a pass
    that has reached the next time leaves exactly one. -/
theorem seconds_keepPace (statementTimeout : StatementTimeout) (history : History)
    (ls : List Label) (k : Int) (source : ReloadSource) (currentTime : Int) (task : CronTask)
    (job : CronJob) :
    let w := Machine.run World.step (World.launch statementTimeout history) ls
    let w' := w.step (.reload source currentTime)
    w.tasks.lookup k = none → w'.tasks.lookup k = some task →
    getCronJob w'.jobs k = some job → job.schedule.seconds = true →
    ∀ ms, (∀ l ∈ ms, l.keepsSchedule k job.schedule) → (∀ now ∈ passTimes ms, 0 < now) →
    let interval := job.schedule.secondsInterval * 1000 * 1000
    (w'.incrementTimes k ms).Pairwise (fun s t => s + interval ≤ t) ∧
    (∀ first rest, passTimes ms = first :: rest →
      ∀ t ∈ w'.incrementTimes k ms, first + interval ≤ t) ∧
    ∃ task', (Machine.run World.step w' ms).tasks.lookup k = some task' ∧
      (task'.pendingRunCount = 0 ∨ task'.pendingRunCount = 1) ∧
      ∀ now, task'.nextRunTime ≠ 0 → task'.nextRunTime ≤ now →
        ∃ task'', ((Machine.run World.step w' ms).step (.startPending now)).tasks.lookup k =
          some task'' ∧ task''.pendingRunCount = 1 := by
  intro w w' hnone hlookup hjob hseconds ms hkeeps hpos interval
  obtain ⟨haccounted, hintervals⟩ := reached_paced statementTimeout history ls
  have hintervals' : w'.IntervalsOk := intervalsOk_step hintervals (.reload source currentTime)
  have hinterval := hintervals'.pos hjob hseconds
  have hunit : interval = job.schedule.interval := by
    show job.schedule.secondsInterval * 1000 * 1000 = _
    rw [CronSchedule.interval, Int.mul_comm job.schedule.secondsInterval]
  have hpaces : w'.Paces k job.schedule task :=
    ⟨haccounted.step _, ⟨job, hjob, rfl⟩, hseconds, hinterval, hlookup⟩
  -- the reload has just created the task: its timer is not armed, and its queue is empty
  have hfresh : task = { initCronTask (source.entry k) k with isActive := true } := by
    change (w.reload source currentTime).tasks.lookup k = some task at hlookup
    rw [lookup_reload, hnone] at hlookup
    split at hlookup
    · exact (Option.some.inj hlookup).symm
    · exact absurd hlookup (by simp)
  have hpending : task.pendingRunCount = 0 := by rw [hfresh]; rfl
  have htimer : task.timer = none := by rw [hfresh]; rfl
  obtain ⟨hsub, task', hpaces', hpending'⟩ := hpaces.run (Or.inl hpending) hkeeps hpos
  rw [htimer] at hsub
  rw [hunit]
  refine ⟨(Ticker.firings_pairwise (le_of_lt hinterval) _ _).sublist hsub,
    fun first rest hfirst t ht => ?_, task', hpaces'.lookup, hpending', fun now hne hle => ?_⟩
  · rw [hfirst] at hsub
    exact Ticker.le_of_mem_firings_none (le_of_lt hinterval) (hsub.subset ht)
  · obtain ⟨task'', hpaces'', ⟨now', hnow, rfl, -⟩ | ⟨hpass, -⟩⟩ :=
      hpaces'.step (l := .startPending now) trivial
    · obtain rfl := Label.startPending.inj hnow
      refine ⟨_, hpaces''.lookup, ?_⟩
      have hdue : Ticker.due task'.timer now = true := by
        rw [CronTask.timer, if_neg hne, Ticker.due, Option.any_some]
        exact decide_eq_true hle
      rw [startSecondIntervalTask_pending, secondIntervalIncrements_eq _ hinterval]
      simp only [hdue, true_and]
      split <;> omega
    · exact absurd hpass (by simp [Label.passTime])

/-- The theorem at a job of five seconds with two runs. -/
theorem seconds_keepPace_twoDue :
    let w' := (World.launch defaultTimeout emptyHistory).step
      (.reload (oneRow (secondsRow (ascii "alice") (ascii "SELECT 1"))) 0)
    w'.incrementTimes 7 twoDue = [6000000, 11000000] ∧
      (w'.incrementTimes 7 twoDue).Pairwise fun s t => s + 5000000 ≤ t := by
  intro w'
  have hkeeps : ∀ l ∈ twoDue, l.keepsSchedule 7
      (secondsJob (ascii "alice") (ascii "SELECT 1")).schedule := by
    have hagain : getCronJob (loadJobsList false true
        (oneRow (secondsRow (ascii "alice") (ascii "SELECT 1"))).table) 7 =
        some (secondsJob (ascii "alice") (ascii "SELECT 1")) := by decide +kernel
    simp only [twoDue, List.forall_mem_cons, Label.keepsSchedule]
    exact ⟨trivial, trivial, trivial, trivial, trivial, ⟨_, hagain, rfl⟩, List.forall_mem_nil _⟩
  exact ⟨by decide +kernel, (seconds_keepPace defaultTimeout emptyHistory [] 7 _ 0
    { initCronTask clearedEntry 7 with isActive := true }
    (secondsJob (ascii "alice") (ascii "SELECT 1")) (by decide +kernel) (by decide +kernel)
    (by decide +kernel) rfl twoDue hkeeps (by decide +kernel)).1⟩

end NedoCron
