import NedoCron.Isolation
import NedoCron.Lib.Alarm

namespace NedoCron

/-!
# nedo_cron — how long the worker sleeps

`CalculateWaitTimeout` keeps the earliest of four kinds of events while it walks over the tasks.
The sleep is the number of whole milliseconds until that event, at most one second.

* `wakeUps` — the events a sleep must not pass;
* `calculateWaitTimeout_eq` — the loop finds the earliest of them, from `Lib/Alarm.lean`;
* `calculateWaitTimeout_exact` — so the worker does not oversleep;
* `CronTask.CanMove` — the tasks that need neither a socket nor the clock for their next step;
* `sleepless_iff` — when the worker does not sleep although such a task is there.
-/

/-! ### The events -/

/-- A run is due and its task is free: the worker must not sleep. -/
def CronTask.Ready (task : CronTask) : Prop := task.state = .waiting ∧ task.pendingRunCount > 0

instance (task : CronTask) : Decidable task.Ready := inferInstanceAs (Decidable (_ ∧ _))

/-- The next run of a loaded `N seconds` job. -/
def CronTask.nextSecondsRun (jobs : Table Int CronJob) (task : CronTask) : Option Int :=
  if (getCronJob jobs task.jobId).any (fun job => job.schedule.seconds) ∧ task.nextRunTime ≠ 0
  then some task.nextRunTime else none

/-- The events of a task that end a sleep. -/
def CronTask.events (jobs : Table Int CronJob) (task : CronTask) : List Int :=
  (task.nextSecondsRun jobs).toList ++ task.deadline.toList

/-- Everything a sleep from `now` on must not pass. -/
def wakeUps (jobs : Table Int CronJob) (taskList : List CronTask) (now : Int) : Set Int :=
  {e | e = endOfMinute now ∨ ∃ task ∈ taskList,
    ((∃ job, getCronJob jobs task.jobId = some job ∧ job.schedule.seconds = true) ∧
        task.nextRunTime ≠ 0 ∧ e = task.nextRunTime) ∨
      ((task.state = .connecting ∨ task.state = .sending) ∧ task.startDeadline ≠ 0 ∧
        e = task.startDeadline) ∨
      (task.state = .running ∧ task.runDeadline ≠ 0 ∧ task.cancelRequested = false ∧
        e = task.runDeadline)}

/-- When a task has a deadline, and which. -/
theorem mem_deadline {task : CronTask} {e : Int} :
    e ∈ task.deadline.toList ↔
      ((task.state = .connecting ∨ task.state = .sending) ∧ task.startDeadline ≠ 0 ∧
        e = task.startDeadline) ∨
      (task.state = .running ∧ task.runDeadline ≠ 0 ∧ task.cancelRequested = false ∧
        e = task.runDeadline) := by
  rw [Option.mem_toList]
  -- CONNECTING and SENDING have the start deadline, RUNNING the run deadline
  unfold CronTask.deadline
  split
  · rename_i hstart
    have hrunning : task.state ≠ .running := by
      rcases hstart.1 with hstate | hstate <;> (rw [hstate]; decide)
    rw [Option.some.injEq]
    exact ⟨fun h => Or.inl ⟨hstart.1, hstart.2, h.symm⟩,
      fun h => (h.resolve_right fun hrun => hrunning hrun.1).2.2.symm⟩
  · rename_i hstart
    have hnot : ¬((task.state = .connecting ∨ task.state = .sending) ∧ task.startDeadline ≠ 0 ∧
        e = task.startDeadline) := fun h => hstart ⟨h.1, h.2.1⟩
    split
    · rename_i hrun
      rw [Option.some.injEq]
      exact ⟨fun h => Or.inr ⟨hrun.1, hrun.2.1, hrun.2.2, h.symm⟩,
        fun h => (h.resolve_left hnot).2.2.2.symm⟩
    · rename_i hrun
      exact ⟨fun h => absurd h (by simp),
        fun h => absurd (h.resolve_left hnot) fun h => hrun ⟨h.1, h.2.1, h.2.2.1⟩⟩

/-- When a task has a next time, and which. -/
theorem mem_nextSecondsRun {jobs : Table Int CronJob} {task : CronTask} {e : Int} :
    e ∈ (task.nextSecondsRun jobs).toList ↔
      (∃ job, getCronJob jobs task.jobId = some job ∧ job.schedule.seconds = true) ∧
        task.nextRunTime ≠ 0 ∧ e = task.nextRunTime := by
  rw [Option.mem_toList, ← Option.any_eq_true]
  unfold CronTask.nextSecondsRun
  split
  · rename_i harmed
    rw [Option.some.injEq]
    exact ⟨fun h => ⟨harmed.1, harmed.2, h.symm⟩, fun h => h.2.2.symm⟩
  · rename_i harmed
    exact ⟨fun h => absurd h (by simp), fun h => absurd ⟨h.1, h.2.1⟩ harmed⟩

/-- The events of the tasks, and the next minute. -/
theorem mem_wakeUps {jobs : Table Int CronJob} {taskList : List CronTask} {now e : Int} :
    e ∈ wakeUps jobs taskList now ↔
      e = endOfMinute now ∨ e ∈ taskList.flatMap (CronTask.events jobs) := by
  unfold wakeUps
  simp only [Set.mem_ofPred_eq, List.mem_flatMap, CronTask.events, List.mem_append,
    mem_nextSecondsRun, mem_deadline]

/-- The earliest event. -/
theorem isLeast_wakeUps (jobs : Table Int CronJob) (taskList : List CronTask) (now : Int) :
    IsLeast (wakeUps jobs taskList now)
      (Alarm.earliest (endOfMinute now) (taskList.flatMap (CronTask.events jobs))) := by
  have hset : wakeUps jobs taskList now =
      {d | d = endOfMinute now ∨ d ∈ taskList.flatMap (CronTask.events jobs)} :=
    Set.ext fun e => mem_wakeUps
  rw [hset]
  exact Alarm.isLeast_earliest _ _

/-! ### The loop -/

/-- The comparison keeps the earlier of the two. -/
theorem earlierEvent_eq (deadline nextEventTime : Int) :
    earlierEvent deadline nextEventTime = min nextEventTime deadline := by
  unfold earlierEvent
  rw [timestampDifferenceExceeds_zero]
  by_cases hle : deadline ≤ nextEventTime
  · rw [if_pos (decide_eq_true hle), min_eq_right hle]
  · rw [if_neg (by simpa using hle), min_eq_left (by omega)]

/-- The loop takes the earliest event of a task. -/
theorem nextTaskEvent_earliest (jobs : Table Int CronJob) (task : CronTask)
    (nextEventTime : Int) :
    nextTaskEvent jobs task nextEventTime = Alarm.earliest nextEventTime (task.events jobs) := by
  rw [nextTaskEvent_eq, CronTask.events, Alarm.earliest_append]
  unfold CronTask.nextSecondsRun
  dsimp only
  split <;> cases task.deadline <;> simp [earlierEvent_eq]

/-- The loop returns early at a task whose run is due, and else finds the earliest event. -/
theorem nextEvent_eq (jobs : Table Int CronJob) (taskList : List CronTask)
    (nextEventTime : Int) :
    nextEvent jobs taskList nextEventTime =
      if ∃ task ∈ taskList, task.Ready then none
      else some (Alarm.earliest nextEventTime (taskList.flatMap (CronTask.events jobs))) := by
  induction taskList generalizing nextEventTime with
  | nil => simp [nextEvent]
  | cons task taskList ih =>
    by_cases hready : task.Ready
    · have hstart : task.state = .waiting ∧ task.pendingRunCount > 0 := hready
      rw [nextEvent, if_pos hstart, if_pos ⟨task, List.mem_cons_self, hready⟩]
    · have hstart : ¬(task.state = .waiting ∧ task.pendingRunCount > 0) := hready
      rw [nextEvent, if_neg hstart, ih, List.flatMap_cons, Alarm.earliest_append,
        nextTaskEvent_earliest]
      simp only [List.exists_mem_cons_iff, hready, false_or]

/-- From any clock reading, the next minute is at most two minutes away. -/
theorem endOfMinute_le (now : Int) : endOfMinute now ≤ now + 2 * minute := by
  unfold endOfMinute startOfMinute
  have hrem := Int.lt_tmod_of_pos now (show 0 < minute by decide)
  omega

/-- No event is later than the next minute, so nothing overflows on the way to milliseconds. -/
theorem calculateWaitTimeout_eq (jobs : Table Int CronJob) (taskList : List CronTask)
    (now : Int) :
    calculateWaitTimeout jobs taskList now =
      if ∃ task ∈ taskList, task.Ready then 0
      else Alarm.ticks 1000 maxSleep now
        (Alarm.earliest (endOfMinute now) (taskList.flatMap (CronTask.events jobs))) := by
  unfold calculateWaitTimeout
  rw [nextEvent_eq]
  by_cases hready : ∃ task ∈ taskList, task.Ready
  · rw [if_pos hready, if_pos hready]
  · rw [if_neg hready, if_neg hready]
    have hbound := (Alarm.isLeast_earliest (endOfMinute now)
      (taskList.flatMap (CronTask.events jobs))).2 (Or.inl rfl)
    have hminute := endOfMinute_le now
    generalize Alarm.earliest (endOfMinute now) (taskList.flatMap (CronTask.events jobs)) = e at *
    unfold minute at hminute
    unfold Alarm.ticks timestampDifference maxSleep toInt32
    dsimp only
    split <;> omega

/-! ### The worker does not oversleep -/

/-- From the epoch on, the next minute is the first multiple of a minute after the reading. -/
theorem endOfMinute_eq {now : Int} (h : 0 ≤ now) :
    endOfMinute now = (now / minute + 1) * minute := by
  unfold endOfMinute startOfMinute minute
  rw [Int.tmod_eq_emod_of_nonneg h]
  omega

/-- **The worker does not oversleep.**  It does not sleep at all when the run of a free task is
    due, and otherwise exactly the whole milliseconds until the earliest event, at most 1000 and
    at least 0: the next minute, the next run of a seconds job, the start deadline of a run that
    connects or sends, the deadline of a query that runs.  So it passes no event that is still to
    come, and the order of the tasks does not matter. -/
theorem calculateWaitTimeout_exact (jobs : Table Int CronJob) (taskList : List CronTask)
    {now : Int} (hnow : 0 ≤ now) :
    endOfMinute now = (now / minute + 1) * minute ∧
    ((∃ task ∈ taskList, task.Ready) →
      calculateWaitTimeout jobs taskList now = 0) ∧
    ((¬∃ task ∈ taskList, task.Ready) →
      ∃ e, IsLeast (wakeUps jobs taskList now) e ∧
        calculateWaitTimeout jobs taskList now = max 0 (min 1000 ((e - now) / 1000))) ∧
    (∀ d ∈ wakeUps jobs taskList now, now < d →
      now + calculateWaitTimeout jobs taskList now * 1000 ≤ d) ∧
    ∀ taskList', taskList'.Perm taskList →
      calculateWaitTimeout jobs taskList' now = calculateWaitTimeout jobs taskList now := by
  have hleast := isLeast_wakeUps jobs taskList now
  refine ⟨endOfMinute_eq hnow, fun hready => ?_, fun hready => ?_, fun d hd hfuture => ?_,
    fun taskList' hperm => ?_⟩
  · rw [calculateWaitTimeout_eq, if_pos hready]
  · exact ⟨_, hleast, by rw [calculateWaitTimeout_eq, if_neg hready]; rfl⟩
  · rw [calculateWaitTimeout_eq]
    split
    · omega
    · exact Alarm.ticks_inTime (by decide) hfuture (hleast.2 hd)
  · rw [calculateWaitTimeout_eq, calculateWaitTimeout_eq,
      Alarm.earliest_perm _ (hperm.flatMap_right _)]
    simp only [hperm.mem_iff]

/-- The theorem at a running query: its deadline, 250 ms ahead, ends the sleep. -/
theorem calculateWaitTimeout_exact_running :
    let task := { clearedEntry with state := .running, runDeadline := 6250000 }
    6000000 + calculateWaitTimeout ∅ [task] 6000000 * 1000 ≤ 6250000 := by
  intro task
  obtain ⟨-, -, -, hpasses, -⟩ := calculateWaitTimeout_exact ∅ [task] (show 0 ≤ 6000000 by decide)
  exact hpasses 6250000
    (Or.inr ⟨task, List.mem_singleton_self task, Or.inr (Or.inr ⟨rfl, by decide, rfl, rfl⟩)⟩)
    (by decide)

/-! ### Tasks that wait for nothing -/

/-- The next step of the task needs neither a socket nor the clock. -/
def CronTask.CanMove (jobs : Table Int CronJob) (task : CronTask) : Prop :=
  task.Ready ∨ task.state = .start ∨ task.state = .error ∨ task.state = .done ∨
    getCronJob jobs task.jobId = none

/-- The queue makes a WAITING task move, unless it is removed. -/
theorem manageWaiting_state {task task' : CronTask} (hpending : task.pendingRunCount > 0)
    (hkept : (manageWaiting task).fate = .kept task') : task'.state = .start := by
  unfold manageWaiting at hkept
  split at hkept
  · cases hkept
  · rw [if_neg (by omega)] at hkept
    cases hkept
    rfl

/-- START leads on or fails. -/
theorem manageStart_state (task : CronTask) (job : CronJob) (ms now runId : Int) (conn : Nat)
    (io : Replies) {task' : CronTask}
    (hkept : (manageStart task job ms now runId conn io).fate = .kept task') :
    task'.state ≠ .start := by
  unfold manageStart at hkept
  dsimp only at hkept
  split at hkept
  · cases hkept; simp [CronTask.fail]
  · split at hkept
    · cases hkept; simp [CronTask.fail]
    · split at hkept <;> (cases hkept; simp [CronTask.fail])

/-- **Whatever libpq answers**, such a task changes its state in its next step or is removed. -/
theorem moves_of_canMove {w : World} {task : CronTask} (h : task.CanMove w.jobs)
    (currentTime : Int) (gap : Nat) (io : Replies) {task' : CronTask}
    (hkept : (w.turn task currentTime gap io).fate = .kept task') :
    task'.state ≠ task.state := by
  by_cases hstate : task.state = .done
  · have hreset : (manageDone task).fate = .kept task' := by
      rw [← hkept, World.turn, manageCronTask, hstate]
    unfold manageDone at hreset
    cases hreset
    rw [hstate]
    simp [resetCronTaskAfterRun]
  · cases hjob : getCronJob w.jobs task.jobId with
    | none =>
      -- the error branch runs in the same call
      have hgone : task'.state = .done := state_of_jobless hjob hstate hkept
      rw [hgone]
      exact Ne.symm hstate
    | some job =>
      have hturn : ∀ state, task.state = state →
          (w.turn task currentTime gap io).fate = (manageCronTask
            { w.context task currentTime gap with job := some job }
            { task with state := state } io).fate := by
        rintro state rfl
        rw [World.turn, World.context, hjob]
      rcases h with ⟨hs, hpending⟩ | hs | hs | hs | hnone
      · rw [hturn _ hs] at hkept
        have hstarted := @manageWaiting_state { task with state := .waiting } task' hpending hkept
        rw [hstarted, hs]
        decide
      · rw [hturn _ hs] at hkept
        rw [hs]
        exact manageStart_state _ job _ _ _ _ io hkept
      · rw [hturn _ hs] at hkept
        obtain ⟨-, rfl⟩ := manageError_kept hkept
        rw [CronTask.closed_state, hs]
        decide
      · exact absurd hs hstate
      · rw [hjob] at hnone; cases hnone

/-- The tasks `CalculateWaitTimeout` walks over. -/
def World.waitList (w : World) : List CronTask := w.unreadyTasks.entries.map fun e => e.2

/-- **When the worker does not sleep although a task can move**: a task that can move keeps it
    awake if and only if the run of a free task is due, or the next event is less than a
    millisecond away.  START, ERROR and DONE and a job that is gone are not looked at. -/
theorem sleepless_iff (w : World) (io : WaitReplies) :
    ((∃ task ∈ w.waitList, task.CanMove w.jobs) → w.waitTimeout io = 0) ↔
      ((∀ task ∈ w.waitList, ¬task.CanMove w.jobs) ∨ (∃ task ∈ w.waitList, task.Ready) ∨
        ∃ e ∈ wakeUps w.jobs w.waitList io.timestamp, e < io.timestamp + 1000) := by
  have htimeout : w.waitTimeout io = 0 ↔ (∃ task ∈ w.waitList, task.Ready) ∨
      ∃ e ∈ wakeUps w.jobs w.waitList io.timestamp, e < io.timestamp + 1000 := by
    show calculateWaitTimeout w.jobs w.waitList io.timestamp = 0 ↔ _
    rw [calculateWaitTimeout_eq]
    by_cases hready : ∃ task ∈ w.waitList, task.Ready
    · rw [if_pos hready]
      exact ⟨fun _ => Or.inl hready, fun _ => rfl⟩
    · rw [if_neg hready, Alarm.ticks_eq_zero (by decide) (by decide)]
      obtain ⟨hmem, hleast⟩ := Alarm.isLeast_earliest (endOfMinute io.timestamp)
        (w.waitList.flatMap (CronTask.events w.jobs))
      constructor
      · exact fun hlt => Or.inr ⟨_, mem_wakeUps.mpr hmem, hlt⟩
      · rintro (h | ⟨e, he, hlt⟩)
        · exact absurd h hready
        · exact lt_of_le_of_lt (hleast (mem_wakeUps.mp he)) hlt
  rw [htimeout, imp_iff_not_or]
  simp only [not_exists, not_and]

/-- A run is due, its task is in START, and the worker sleeps for a second. -/
theorem sleeps_in_start :
    let w := Machine.run World.step (World.launch defaultTimeout emptyHistory)
      (untilStart (secondsRow (ascii "alice") (ascii "SELECT 1")))
    ¬((∃ task ∈ w.waitList, task.CanMove w.jobs) → w.waitTimeout (readyWait 6000000) = 0) := by
  intro w h
  have hlist : w.waitList =
      [{ initCronTask clearedEntry 7 with state := .start, nextRunTime := 11000000 }] := by
    decide +kernel
  have hzero := h ⟨_, by rw [hlist]; exact List.mem_singleton_self _, Or.inr (Or.inl rfl)⟩
  have hsecond : w.waitTimeout (readyWait 6000000) = 1000 := by decide +kernel
  rw [hsecond] at hzero
  exact absurd hzero (by decide)

end NedoCron
