import NedoCron.Resources

namespace NedoCron

/-!
# nedo_cron — the invariant of the worker

`WorldOk` holds in every state a worker reaches: every task keeps `TaskOk`, and the recorded
calls, read as events on connections and on runs, keep the discipline of `Lib/Ledger.lean`
with the tasks as owners.

* `lookup_reload` to `lookup_manage_ne` — what each step does to one task;
* `TaskRule.run` — predicates on single tasks along a run;
* `WorldOk.step`, `WorldOk.run` — the invariant along a step and along a run.
-/

/-! ### What each step does to one task -/

/-- The entry of a task after `getCronTask` and the flag. -/
theorem lookup_activateTask (entry : Int → CronTask) (tasks : Table Int CronTask)
    (jobId k : Int) :
    (activateTask entry tasks jobId).lookup k =
      if k = jobId then
        some { (tasks.lookup k).getD (initCronTask (entry k) k) with isActive := true }
      else tasks.lookup k := by
  unfold activateTask getCronTask
  by_cases hk : k = jobId
  · subst hk
    rw [if_pos rfl, Table.lookup_adjust_self]
    cases hlookup : tasks.lookup k with
    | some task => simp [hlookup]
    | none => simp [AList.lookup_insert]
  · rw [if_neg hk, Table.lookup_adjust_ne hk]
    cases tasks.lookup jobId with
    | some task => rfl
    | none => exact AList.lookup_insert_ne hk

/-- Activating the tasks of a list of jobs. -/
theorem lookup_activateTasks (entry : Int → CronTask) (jobIds : List Int)
    (tasks : Table Int CronTask) (k : Int) :
    (jobIds.foldl (activateTask entry) tasks).lookup k =
      if k ∈ jobIds then
        some { (tasks.lookup k).getD (initCronTask (entry k) k) with isActive := true }
      else tasks.lookup k := by
  induction jobIds generalizing tasks with
  | nil => simp
  | cons jobId jobIds ih =>
    rw [List.foldl_cons, ih, lookup_activateTask]
    by_cases hk : k = jobId
    · subst hk
      by_cases hmem : k ∈ jobIds <;> simp [hmem]
    · by_cases hmem : k ∈ jobIds <;> simp [hmem, hk]

/-- **A reload** keeps every task up to its active flag, and creates the tasks of new jobs. -/
theorem lookup_reload (w : World) (source : ReloadSource) (currentTime k : Int) :
    (w.reload source currentTime).tasks.lookup k =
      if k ∈ (w.reload source currentTime).jobs.keys then
        some { (w.tasks.lookup k).getD (initCronTask (source.entry k) k) with isActive := true }
      else (w.tasks.lookup k).map fun task => { task with isActive := false } := by
  show (List.foldl (activateTask source.entry) _ _).lookup k = _
  rw [lookup_activateTasks, Table.lookup_mapEntries]
  show (if k ∈ (loadJobsList _ _ _).keys then _ else _) =
    if k ∈ (loadJobsList _ _ _).keys then _ else _
  congr 1
  cases w.tasks.lookup k <;> rfl

/-- Each task after a scheduling pass. -/
theorem lookup_startPending (w : World) (currentTime k : Int) :
    (w.startPending currentTime).tasks.lookup k =
      (w.tasks.lookup k).map
        (schedulePendingTask w.jobs (initLastMinute w.lastMinute currentTime) currentTime) := by
  unfold World.startPending startPendingTasks
  dsimp only
  split <;> exact Table.lookup_mapEntries _ _ _

/-- **A scheduling pass** touches nothing but the queue and the next time of a task. -/
theorem schedulePendingTask_eq (jobs : Table Int CronJob) (lastMinute currentTime : Int)
    (task : CronTask) :
    ∃ pendingRunCount nextRunTime, schedulePendingTask jobs lastMinute currentTime task =
      { task with pendingRunCount := pendingRunCount, nextRunTime := nextRunTime } := by
  have hsame : ∃ pendingRunCount nextRunTime, task =
      { task with pendingRunCount := pendingRunCount, nextRunTime := nextRunTime } :=
    ⟨task.pendingRunCount, task.nextRunTime, rfl⟩
  -- one possible increment changes the counter alone
  have henqueue : ∀ (t : CronTask) (due : Bool), ∃ pendingRunCount,
      t.enqueueIf due = { t with pendingRunCount := pendingRunCount } := by
    intro t due
    cases due
    · exact ⟨t.pendingRunCount, rfl⟩
    · exact ⟨t.pendingRunCount + 1, rfl⟩
  unfold schedulePendingTask
  dsimp only
  split
  · exact hsame
  · split
    · unfold startSecondIntervalTask
      dsimp only
      split <;> split <;> first | exact ⟨_, _, rfl⟩ | (split <;> exact ⟨_, _, rfl⟩)
    · split
      · unfold startPendingTask
        dsimp only
        split
        · exact ⟨_, task.nextRunTime, rfl⟩
        · obtain ⟨n, hn⟩ := henqueue _ _
          rw [hn]
          exact ⟨n, task.nextRunTime, rfl⟩
        · obtain ⟨n, hn⟩ := henqueue task _
          rw [hn]
          exact ⟨n, task.nextRunTime, rfl⟩
        · obtain ⟨n, hn⟩ := henqueue task _
          rw [hn]
          exact ⟨n, task.nextRunTime, rfl⟩
      · exact hsame

/-- Each task after a wait. -/
theorem lookup_wait (w : World) (io : WaitReplies) (k : Int) :
    (w.waitForEvent io).tasks.lookup k = (w.tasks.lookup k).map fun task =>
      if w.waitTimeout io = 0 then task.unready else awaitTask io k task.unready := by
  unfold World.waitForEvent World.unreadyTasks
  dsimp only
  by_cases hzero : w.waitTimeout io = 0
  · simp [hzero, Table.lookup_mapEntries]
  · simp [hzero, Table.lookup_mapEntries, Function.comp_def]

/-- A turn of one task leaves the others alone. -/
theorem lookup_manage_ne {w : World} {jobId k : Int} (h : k ≠ jobId) (currentTime : Int)
    (gap : Nat) (io : Replies) :
    (w.manage jobId currentTime gap io).tasks.lookup k = w.tasks.lookup k := by
  unfold World.manage
  split
  · rfl
  · dsimp only
    unfold Fate.apply
    split
    · exact Table.lookup_adjust_ne h _ _
    · exact AList.lookup_erase_ne h

/-- The task of a job after its own step. -/
def Fate.task : Fate → Option CronTask
  | .kept task => some task
  | .removed => none

/-- The task after its turn. -/
theorem lookup_manage_self {w : World} {jobId : Int} {task : CronTask}
    (h : w.tasks.lookup jobId = some task) (currentTime : Int) (gap : Nat) (io : Replies) :
    (w.manage jobId currentTime gap io).tasks.lookup jobId =
      (manageCronTask (w.context task currentTime gap) task io).fate.task := by
  unfold World.manage
  rw [h]
  dsimp only
  unfold Fate.apply
  split
  · rename_i task' hfate
    rw [hfate, Table.lookup_adjust_self, h]
    rfl
  · rename_i hfate
    rw [hfate, AList.lookup_erase]
    rfl

/-! ### Steps without a run -/

/-- The task is the same up to its queue, its next time and its flags. -/
def Idles (task task' : CronTask) : Prop :=
  ∃ pendingRunCount nextRunTime isActive isSocketReady, task' =
    { task with
      pendingRunCount := pendingRunCount
      nextRunTime := nextRunTime
      isActive := isActive
      isSocketReady := isSocketReady }

/-- Such a task is in the same run. -/
theorem Idles.sameRun {task task' : CronTask} (h : Idles task task') : SameRun task task' := by
  obtain ⟨_, _, _, _, rfl⟩ := h
  exact ⟨rfl, rfl, rfl, rfl, rfl⟩

/-- A step that leaves the runs alone. -/
structure Quiet (w w' : World) : Prop where
  kept : ∀ k task, w.tasks.lookup k = some task →
    ∃ task', w'.tasks.lookup k = some task' ∧ Idles task task'
  created : ∀ k task', w.tasks.lookup k = none → w'.tasks.lookup k = some task' →
    ∃ entry, Idles (initCronTask entry k) task'
  trace : w'.trace = w.trace
  newConn : w'.newConn = w.newConn
  lastRunId : w'.history.lastRunId = w.history.lastRunId

/-- A step that rewrites every task by itself is quiet if it is so for each of them. -/
theorem quiet_of_map {w w' : World} {f : Int → CronTask → CronTask}
    (h : ∀ k, w'.tasks.lookup k = (w.tasks.lookup k).map (f k))
    (hidles : ∀ k task, Idles task (f k task)) (htrace : w'.trace = w.trace)
    (hconn : w'.newConn = w.newConn)
    (hlast : w'.history.lastRunId = w.history.lastRunId) : Quiet w w' where
  kept k task hlookup := ⟨f k task, by rw [h, hlookup]; rfl, hidles k task⟩
  created k task' hnone hsome := by rw [h, hnone] at hsome; exact absurd hsome (by simp)
  trace := htrace
  newConn := hconn
  lastRunId := hlast

/-- A reload leaves the runs alone. -/
theorem quiet_reload (w : World) (source : ReloadSource) (currentTime : Int) :
    Quiet w (w.reload source currentTime) where
  kept k task hlookup := by
    rw [lookup_reload, hlookup]
    split
    · exact ⟨_, rfl, _, _, _, _, rfl⟩
    · exact ⟨_, rfl, _, _, _, _, rfl⟩
  created k task' hnone hsome := by
    rw [lookup_reload, hnone] at hsome
    split at hsome
    · obtain rfl := Option.some.inj hsome
      exact ⟨source.entry k, _, _, _, _, rfl⟩
    · exact absurd hsome (by simp)
  trace := rfl
  newConn := rfl
  lastRunId := rfl

/-- A scheduling pass leaves the runs alone. -/
theorem quiet_startPending (w : World) (currentTime : Int) :
    Quiet w (w.startPending currentTime) := by
  refine quiet_of_map (lookup_startPending w currentTime) (fun _ task => ?_) rfl rfl rfl
  obtain ⟨n, t, heq⟩ := schedulePendingTask_eq w.jobs
    (initLastMinute w.lastMinute currentTime) currentTime task
  exact ⟨n, t, task.isActive, task.isSocketReady, heq⟩

/-- A step that does not touch the tasks is quiet. -/
theorem quiet_of_tasks {w w' : World} (htasks : w'.tasks = w.tasks) (htrace : w'.trace = w.trace)
    (hconn : w'.newConn = w.newConn)
    (hlast : w'.history.lastRunId = w.history.lastRunId) : Quiet w w' :=
  quiet_of_map (f := fun _ task => task) (fun k => by rw [htasks]; simp)
    (fun _ task =>
      ⟨task.pendingRunCount, task.nextRunTime, task.isActive, task.isSocketReady, rfl⟩)
    htrace hconn hlast

/-! ### Waits -/

/-- **A wait** reports readiness, or fails a task under way. -/
theorem awaitTask_cases (io : WaitReplies) (k : Int) (task : CronTask) :
    (∃ ready, awaitTask io k task = { task with isSocketReady := ready }) ∨
      (task.state.isConnected = true ∧ ∃ fmt args pollingStatus, awaitTask io k task =
        { task.fail io.leftover fmt args with pollingStatus := pollingStatus }) := by
  unfold awaitTask registerTask
  dsimp only
  split
  · exact Or.inl ⟨task.isSocketReady, rfl⟩
  · rename_i hneeds
    have hstate : task.state.isConnected = true := by
      by_contra hnot
      exact hneeds (Or.inl (Bool.not_eq_true _ |>.mp hnot))
    split
    · exact Or.inr ⟨hstate, _, _, _, rfl⟩
    · split
      · exact Or.inr ⟨hstate, _, _, _, rfl⟩
      · dsimp only
        split
        · exact Or.inl ⟨true, rfl⟩
        · exact Or.inl ⟨task.isSocketReady, rfl⟩

/-- It touches the state, the message and the readiness of a task at most. -/
theorem awaitTask_eq (io : WaitReplies) (k : Int) (task : CronTask) :
    ∃ state pollingStatus errorMessage isSocketReady, awaitTask io k task =
      { task with
        state := state
        pollingStatus := pollingStatus
        errorMessage := errorMessage
        isSocketReady := isSocketReady } := by
  rcases awaitTask_cases io k task with ⟨ready, heq⟩ | ⟨-, fmt, args, pollingStatus, heq⟩
  · exact ⟨_, _, _, ready, heq⟩
  · exact ⟨_, pollingStatus, _, _, heq⟩

@[simp] theorem awaitTask_jobId (io : WaitReplies) (k : Int) (task : CronTask) :
    (awaitTask io k task).jobId = task.jobId := by
  obtain ⟨_, _, _, _, heq⟩ := awaitTask_eq io k task
  rw [heq]

@[simp] theorem awaitTask_isActive (io : WaitReplies) (k : Int) (task : CronTask) :
    (awaitTask io k task).isActive = task.isActive := by
  obtain ⟨_, _, _, _, heq⟩ := awaitTask_eq io k task
  rw [heq]

@[simp] theorem awaitTask_pendingRunCount (io : WaitReplies) (k : Int) (task : CronTask) :
    (awaitTask io k task).pendingRunCount = task.pendingRunCount := by
  obtain ⟨_, _, _, _, heq⟩ := awaitTask_eq io k task
  rw [heq]

@[simp] theorem awaitTask_nextRunTime (io : WaitReplies) (k : Int) (task : CronTask) :
    (awaitTask io k task).nextRunTime = task.nextRunTime := by
  obtain ⟨_, _, _, _, heq⟩ := awaitTask_eq io k task
  rw [heq]

/-- A wait asks for the socket of a connected task, and calls nothing else. -/
theorem registerTask_calls (io : WaitReplies) (task : CronTask) :
    (registerTask io task).2.2 = [] ∨ (task.state.isConnected = true ∧
      ∃ conn, task.conn = some conn ∧
        (registerTask io task).2.2 = uses [.socket] (some conn)) := by
  unfold registerTask
  split
  · exact Or.inl rfl
  · rename_i hneeds
    have hstate : task.state.isConnected = true := by
      by_contra hnot
      exact hneeds (Or.inl (Bool.not_eq_true _ |>.mp hnot))
    split
    · exact Or.inl rfl
    · rename_i conn hconn
      split
      · exact Or.inr ⟨hstate, conn, hconn, rfl⟩
      · exact Or.inr ⟨hstate, conn, hconn, rfl⟩

/-- The flag of the socket is no part of a run. -/
theorem idles_unready (task : CronTask) : Idles task task.unready :=
  ⟨task.pendingRunCount, task.nextRunTime, task.isActive, false, rfl⟩

/-- A wait records nothing but uses of the connections of the tasks under way. -/
theorem trace_wait (w : World) (io : WaitReplies) :
    ∃ entries, (w.waitForEvent io).trace = w.trace ++ entries ∧
      ∀ e ∈ entries, ∃ task conn, w.tasks.lookup e.jobId = some task ∧
        task.state.isConnected = true ∧ task.conn = some conn ∧ e.run = task.runId ∧
        e.call = .use .socket (some conn) := by
  by_cases hzero : w.waitTimeout io = 0
  · refine ⟨[], ?_, by simp⟩
    unfold World.waitForEvent
    rw [if_pos hzero, List.append_nil]
  · refine ⟨waitEntries io w.unreadyTasks, ?_, fun e he => ?_⟩
    · unfold World.waitForEvent
      rw [if_neg hzero]
    · unfold waitEntries at he
      obtain ⟨⟨k, task⟩, hmem, he⟩ := List.mem_flatMap.mp he
      obtain ⟨call, hcall, rfl⟩ := List.mem_map.mp he
      have hlookup : w.unreadyTasks.lookup k = some task := AList.mem_lookup_iff.mpr hmem
      unfold World.unreadyTasks at hlookup
      rw [Table.lookup_mapEntries] at hlookup
      obtain ⟨old, hold, rfl⟩ := Option.map_eq_some_iff.mp hlookup
      rcases registerTask_calls io old.unready with hnone | ⟨hstate, conn, hconn, huses⟩
      · rw [hnone] at hcall; exact absurd hcall (by simp)
      · rw [huses] at hcall
        exact ⟨old, conn, hold, hstate, hconn, rfl, by simpa [uses] using hcall⟩

/-- A wait changes nothing but the tasks and the record of calls. -/
theorem wait_rest (w : World) (io : WaitReplies) :
    (w.waitForEvent io).jobs = w.jobs ∧ (w.waitForEvent io).newConn = w.newConn ∧
      (w.waitForEvent io).history = w.history := by
  unfold World.waitForEvent
  dsimp only
  split <;> exact ⟨rfl, rfl, rfl⟩

/-! ### Steps of tasks -/

/-- The turn of a task in the worker's state. -/
def World.turn (w : World) (task : CronTask) (currentTime : Int) (gap : Nat) (io : Replies) :
    Turn := manageCronTask (w.context task currentTime gap) task io

/-- What a turn records. -/
def Turn.entries (turn : Turn) (jobId currentTime : Int) : List Entry :=
  turn.calls.map fun call => ⟨jobId, turn.run, currentTime, call⟩

/-- The worker's state after the turn of a task. -/
theorem manage_eq {w : World} {jobId : Int} {task : CronTask}
    (h : w.tasks.lookup jobId = some task) (currentTime : Int) (gap : Nat) (io : Replies) :
    w.manage jobId currentTime gap io =
      { w with
        tasks := (w.turn task currentTime gap io).fate.apply w.tasks jobId
        history := (w.turn task currentTime gap io).calls.foldl History.apply w.history
        newConn := w.newConn + 1
        trace := w.trace ++ (w.turn task currentTime gap io).entries jobId currentTime } := by
  rw [World.manage, h]
  rfl

/-- There is no turn without a task. -/
theorem manage_none {w : World} {jobId : Int} (h : w.tasks.lookup jobId = none)
    (currentTime : Int) (gap : Nat) (io : Replies) : w.manage jobId currentTime gap io = w := by
  rw [World.manage, h]

/-- A turn leaves the jobs alone. -/
theorem jobs_manage (w : World) (jobId currentTime : Int) (gap : Nat) (io : Replies) :
    (w.manage jobId currentTime gap io).jobs = w.jobs := by
  unfold World.manage
  split <;> rfl

/-- The turn of a task in the world is one of those listed. -/
theorem turn_outcome (w : World) (task : CronTask) (currentTime : Int) (gap : Nat)
    (io : Replies) :
    Outcome (w.context task currentTime gap) io task (w.turn task currentTime gap io) :=
  manageCronTask_outcome _ _ _

/-- **A task whose job is gone** fails, and the ERROR step follows in the same turn. -/
theorem turn_jobless {w : World} {task : CronTask} (hjob : getCronJob w.jobs task.jobId = none)
    (hstate : task.state ≠ .done) (currentTime : Int) (gap : Nat) (io : Replies) :
    w.turn task currentTime gap io = manageError
      { setTaskError io.leftover task (ascii "job metadata not found") [] with
        state := .error } io := by
  unfold World.turn manageCronTask World.context
  dsimp only
  rw [hjob]
  cases hs : task.state with
  | done => exact absurd hs hstate
  | _ => rfl

/-- In such a turn the task ends in DONE, unless it is removed. -/
theorem state_of_jobless {w : World} {task : CronTask} (hjob : getCronJob w.jobs task.jobId = none)
    (hstate : task.state ≠ .done) {currentTime : Int} {gap : Nat} {io : Replies} {task' : CronTask}
    (hkept : (w.turn task currentTime gap io).fate = .kept task') : task'.state = .done := by
  rw [turn_jobless hjob hstate] at hkept
  obtain ⟨-, rfl⟩ := manageError_kept hkept
  rfl

/-- RUNNING, while the job is there. -/
theorem turn_running {w : World} {task : CronTask} {job : CronJob}
    (hjob : getCronJob w.jobs task.jobId = some job) (hstate : task.state = .running)
    (currentTime : Int) (gap : Nat) (io : Replies) :
    w.turn task currentTime gap io = manageRunning task currentTime io := by
  unfold World.turn manageCronTask World.context
  rw [hjob, hstate]

/-- The task that is found after its turn is the one its turn kept. -/
theorem kept_of_lookup {w : World} {jobId : Int} {task task' : CronTask}
    (hold : w.tasks.lookup jobId = some task) {currentTime : Int} {gap : Nat} {io : Replies}
    (hnew : (w.manage jobId currentTime gap io).tasks.lookup jobId = some task') :
    (w.turn task currentTime gap io).fate = .kept task' := by
  rw [lookup_manage_self hold] at hnew
  change Fate.task (w.turn task currentTime gap io).fate = some task' at hnew
  cases hfate : (w.turn task currentTime gap io).fate with
  | kept t => rw [hfate] at hnew; rw [Option.some.inj hnew]
  | removed => rw [hfate] at hnew; exact absurd hnew (by simp [Fate.task])

/-- The jobs after a step. -/
theorem jobs_step (w : World) (l : Label) :
    (w.step l).jobs = w.jobs ∨ ∃ source currentTime, l = .reload source currentTime ∧
      (w.step l).jobs =
        loadJobsList source.recoveryInProgress source.cronLoaded source.table := by
  cases l with
  | reload source currentTime => exact Or.inr ⟨source, currentTime, rfl, rfl⟩
  | wait io => exact Or.inl (wait_rest w io).1
  | manage jobId currentTime gap io => exact Or.inl (jobs_manage w jobId currentTime gap io)
  | _ => exact Or.inl rfl

/-- What a step makes of the task of a job. -/
inductive TaskStep (w : World) (k : Int) (task : CronTask) : Label → CronTask → Prop where
  | untouched (l : Label) : TaskStep w k task l task
  | marked (source : ReloadSource) (currentTime : Int) :
      TaskStep w k task (.reload source currentTime)
        { task with isActive := decide (k ∈ (w.reload source currentTime).jobs.keys) }
  | scheduled (currentTime : Int) :
      TaskStep w k task (.startPending currentTime)
        (schedulePendingTask w.jobs (initLastMinute w.lastMinute currentTime) currentTime task)
  | unready (io : WaitReplies) : TaskStep w k task (.wait io) task.unready
  | awaited (io : WaitReplies) : TaskStep w k task (.wait io) (awaitTask io k task.unready)
  | turned (currentTime : Int) (gap : Nat) (io : Replies) (task' : CronTask)
      (hkept : (w.turn task currentTime gap io).fate = .kept task') :
      TaskStep w k task (.manage k currentTime gap io) task'

/-- **A task after a step** was there before, or a reload has just created it. -/
theorem task_step {w : World} {l : Label} {k : Int} {task' : CronTask}
    (h : (w.step l).tasks.lookup k = some task') :
    (∃ task, w.tasks.lookup k = some task ∧ TaskStep w k task l task') ∨
      ∃ source currentTime, l = .reload source currentTime ∧
        k ∈ (w.reload source currentTime).jobs.keys ∧
        task' = { initCronTask (source.entry k) k with isActive := true } := by
  -- a step of another kind leaves the task as it is
  have hother : ∀ {w' : World}, w'.tasks.lookup k = w.tasks.lookup k →
      w'.tasks.lookup k = some task' → ∃ task, w.tasks.lookup k = some task ∧
        TaskStep w k task l task' := fun hsame hlookup =>
    ⟨task', hsame.symm.trans hlookup, .untouched l⟩
  cases l with
  | reload source currentTime =>
    change (w.reload source currentTime).tasks.lookup k = some task' at h
    rw [lookup_reload] at h
    by_cases hmem : k ∈ (w.reload source currentTime).jobs.keys
    · rw [if_pos hmem] at h
      obtain rfl := Option.some.inj h
      cases hold : w.tasks.lookup k with
      | none => exact Or.inr ⟨source, currentTime, rfl, hmem, rfl⟩
      | some task =>
        refine Or.inl ⟨task, rfl, ?_⟩
        rw [← decide_eq_true hmem]
        exact .marked source currentTime
    · rw [if_neg hmem] at h
      obtain ⟨task, hold, rfl⟩ := Option.map_eq_some_iff.mp h
      refine Or.inl ⟨task, hold, ?_⟩
      rw [← decide_eq_false hmem]
      exact .marked source currentTime
  | startPending currentTime =>
    change (w.startPending currentTime).tasks.lookup k = some task' at h
    rw [lookup_startPending] at h
    obtain ⟨task, hold, rfl⟩ := Option.map_eq_some_iff.mp h
    exact Or.inl ⟨task, hold, .scheduled currentTime⟩
  | wait io =>
    change (w.waitForEvent io).tasks.lookup k = some task' at h
    rw [lookup_wait] at h
    obtain ⟨task, hold, rfl⟩ := Option.map_eq_some_iff.mp h
    refine Or.inl ⟨task, hold, ?_⟩
    split
    · exact .unready io
    · exact .awaited io
  | manage jobId currentTime gap io =>
    change (w.manage jobId currentTime gap io).tasks.lookup k = some task' at h
    by_cases hk : k = jobId
    · subst hk
      cases hold : w.tasks.lookup k with
      | none =>
        rw [manage_none hold, hold] at h
        exact absurd h (by simp)
      | some task =>
        exact Or.inl ⟨task, rfl, .turned currentTime gap io task' (kept_of_lookup hold h)⟩
    · exact Or.inl (hother (lookup_manage_ne hk currentTime gap io) h)
  | _ => exact Or.inl ⟨task', h, .untouched _⟩

/-- **A step and the run of a task.**  The step leaves the run alone, or it is a wait that fails a
    run under way, or it is the task's own turn. -/
theorem TaskStep.run_cases {w : World} {k : Int} {task task' : CronTask} {l : Label}
    (h : TaskStep w k task l task') :
    Idles task task' ∨
      (∃ leftover fmt args pollingStatus, task.state.isConnected = true ∧ task' =
        { task.unready.fail leftover fmt args with pollingStatus := pollingStatus }) ∨
      ∃ currentTime gap io, l = .manage k currentTime gap io ∧
        (w.turn task currentTime gap io).fate = .kept task' := by
  cases h with
  | untouched => exact Or.inl ⟨_, _, _, _, rfl⟩
  | marked source currentTime => exact Or.inl ⟨_, _, _, task.isSocketReady, rfl⟩
  | scheduled currentTime =>
    obtain ⟨pendingRunCount, nextRunTime, heq⟩ := schedulePendingTask_eq w.jobs
      (initLastMinute w.lastMinute currentTime) currentTime task
    rw [heq]
    exact Or.inl ⟨pendingRunCount, nextRunTime, task.isActive, task.isSocketReady, rfl⟩
  | unready io => exact Or.inl (idles_unready task)
  | awaited io =>
    rcases awaitTask_cases io k task.unready with
      ⟨ready, heq⟩ | ⟨hconnected, fmt, args, pollingStatus, heq⟩
    · rw [heq]
      exact Or.inl ⟨_, _, _, ready, rfl⟩
    · exact Or.inr (Or.inl ⟨io.leftover, fmt, args, pollingStatus, hconnected, heq⟩)
  | turned currentTime gap io task' hkept =>
    exact Or.inr (Or.inr ⟨currentTime, gap, io, rfl, hkept⟩)

/-- What the steps that meet the guard `g` must keep of a predicate on tasks. -/
structure TaskRule (g : World → Label → Prop) (P : CronTask → Prop) : Prop where
  init : ∀ entry k, P (initCronTask entry k)
  /-- flags, the queue and the next time of a task do not matter -/
  idles : ∀ {task task'}, Idles task task' → P task → P task'
  /-- a wait may fail a task under way -/
  waitFails : ∀ {task} (leftover fmt args pollingStatus), task.state.isConnected = true →
    P task → P { task.fail leftover fmt args with pollingStatus := pollingStatus }
  turn : ∀ {w jobId task currentTime gap io task'}, g w (.manage jobId currentTime gap io) →
    P task → (w.turn task currentTime gap io).fate = .kept task' → P task'

/-- A predicate on tasks that holds of every task of the worker. -/
def World.All (P : CronTask → Prop) (w : World) : Prop :=
  ∀ k task, w.tasks.lookup k = some task → P task

/-- **The step rule** for predicates on tasks. -/
theorem TaskRule.step {g : World → Label → Prop} {P : CronTask → Prop} (rule : TaskRule g P)
    {w : World} {l : Label} (hg : g w l) (h : w.All P) : (w.step l).All P := by
  intro k task' hlookup'
  rcases task_step hlookup' with ⟨task, hlookup, hstep⟩ | ⟨source, currentTime, -, -, rfl⟩
  · have hold := h k task hlookup
    rcases hstep.run_cases with hidles | ⟨leftover, fmt, args, pollingStatus, hstate, rfl⟩ |
      ⟨currentTime, gap, io, rfl, hkept⟩
    · exact rule.idles hidles hold
    · exact rule.waitFails _ _ _ _ hstate (rule.idles (idles_unready task) hold)
    · exact rule.turn hg hold hkept
  · exact rule.idles ⟨_, _, true, _, rfl⟩ (rule.init (source.entry k) k)

/-- **The run rule** for predicates on tasks. -/
theorem TaskRule.run {g : World → Label → Prop} {P : CronTask → Prop} (rule : TaskRule g P)
    (statementTimeout : StatementTimeout) (history : History) {ls : List Label}
    (hg : Machine.Guarded World.step g (World.launch statementTimeout history) ls) :
    (Machine.run World.step (World.launch statementTimeout history) ls).All P :=
  Machine.guarded_induction (P := fun w : World => w.All P) (fun _ _ => rule.step) hg
    fun k task h => absurd h (by simp [World.launch])

/-! ### The invariant -/

/-- The connection each task owns. -/
def World.heldConn (w : World) (jobId : Int) : Option Nat :=
  (w.tasks.lookup jobId).bind CronTask.conn

/-- The open run each task owns. -/
def World.heldRun (w : World) (jobId : Int) : Option Int :=
  (w.tasks.lookup jobId).bind CronTask.openRun

/-- The recorded calls as events on connections. -/
def World.connLog (w : World) : List (Ledger.Event Nat) :=
  w.trace.flatMap fun e => e.call.connEvents

/-- The recorded calls as events on runs. -/
def World.runLog (w : World) : List (Ledger.Event Int) :=
  w.trace.flatMap fun e => e.call.runEvents

/-- The invariant of the worker. -/
structure WorldOk (w : World) : Prop where
  tasks : ∀ k task, w.tasks.lookup k = some task → TaskOk k task
  conns : Ledger.Disciplined w.heldConn w.connLog
  conns_lt : ∀ e ∈ w.connLog, e.handle < w.newConn
  runs : Ledger.Disciplined w.heldRun w.runLog
  runs_le : ∀ e ∈ w.runLog, e.handle ≤ w.history.lastRunId

/-- The connection a job holds is that of its task. -/
theorem heldConn_of_lookup {w : World} {k : Int} {task : CronTask}
    (h : w.tasks.lookup k = some task) : w.heldConn k = task.conn := by
  rw [World.heldConn, h]; rfl

theorem heldRun_of_lookup {w : World} {k : Int} {task : CronTask}
    (h : w.tasks.lookup k = some task) : w.heldRun k = task.openRun := by
  rw [World.heldRun, h]; rfl

/-- A new worker keeps this, with empty logs. -/
theorem worldOk_launch (statementTimeout : StatementTimeout) (history : History) :
    WorldOk (World.launch statementTimeout history) where
  tasks k task h := absurd h (by simp [World.launch])
  conns := Ledger.Disciplined.empty
  conns_lt := by simp [World.connLog, World.launch]
  runs := Ledger.Disciplined.empty
  runs_le := by simp [World.runLog, World.launch]

/-- A freshly created task owns nothing. -/
theorem idles_init {entry task : CronTask} {k : Int} (h : Idles (initCronTask entry k) task) :
    TaskOk k task ∧ task.conn = none ∧ task.openRun = none := by
  refine ⟨(taskOk_initCronTask entry k).congr h.sameRun, ?_, ?_⟩
  · rw [h.sameRun.conn]; rfl
  · rw [h.sameRun.openRun]; rfl

/-! ### The invariant along quiet steps -/

/-- A quiet step leaves everybody what they own. -/
theorem Quiet.owns {w w' : World} (h : Quiet w w') :
    w'.heldConn = w.heldConn ∧ w'.heldRun = w.heldRun := by
  have hcases : ∀ k, w'.heldConn k = w.heldConn k ∧ w'.heldRun k = w.heldRun k := by
    intro k
    unfold World.heldConn World.heldRun
    cases hold : w.tasks.lookup k with
    | some task =>
      obtain ⟨task', hnew, hidles⟩ := h.kept k task hold
      rw [hnew]
      exact ⟨hidles.sameRun.conn, hidles.sameRun.openRun⟩
    | none =>
      cases hnew : w'.tasks.lookup k with
      | none => exact ⟨rfl, rfl⟩
      | some task' =>
        obtain ⟨entry, hidles⟩ := h.created k task' hold hnew
        exact (idles_init hidles).2
  exact ⟨funext fun k => (hcases k).1, funext fun k => (hcases k).2⟩

/-- A task after a quiet step is an old one or owns nothing. -/
theorem Quiet.task_cases {w w' : World} (h : Quiet w w') {k : Int} {task' : CronTask}
    (hnew : w'.tasks.lookup k = some task') :
    (∃ task, w.tasks.lookup k = some task ∧ Idles task task') ∨
      ∃ entry, Idles (initCronTask entry k) task' := by
  cases hold : w.tasks.lookup k with
  | some task =>
    obtain ⟨t, ht, hidles⟩ := h.kept k task hold
    obtain rfl := Option.some.inj (ht.symm.trans hnew)
    exact Or.inl ⟨task, rfl, hidles⟩
  | none => exact Or.inr (h.created k task' hold hnew)

/-- Steps that leave the runs alone keep this. -/
theorem WorldOk.quiet {w w' : World} (hok : WorldOk w) (h : Quiet w w') : WorldOk w' := by
  have hconnLog : w'.connLog = w.connLog := by rw [World.connLog, h.trace]; rfl
  have hrunLog : w'.runLog = w.runLog := by rw [World.runLog, h.trace]; rfl
  constructor
  · intro k task' hnew
    rcases h.task_cases hnew with ⟨task, hold, hidles⟩ | ⟨entry, hidles⟩
    · exact (hok.tasks k task hold).congr hidles.sameRun
    · exact (idles_init hidles).1
  · rw [h.owns.1, hconnLog]; exact hok.conns
  · rw [hconnLog, h.newConn]; exact hok.conns_lt
  · rw [h.owns.2, hrunLog]; exact hok.runs
  · rw [hrunLog, h.lastRunId]; exact hok.runs_le

/-! ### The invariant along waits -/

/-- A wait does not change what a task owns. -/
theorem awaitTask_owns (io : WaitReplies) {k : Int} {task : CronTask} (hok : TaskOk k task) :
    TaskOk k (awaitTask io k task) ∧ (awaitTask io k task).conn = task.conn ∧
      (awaitTask io k task).openRun = task.openRun := by
  rcases awaitTask_cases io k task with ⟨ready, heq⟩ | ⟨hstate, fmt, args, pollingStatus, heq⟩
  · have hsame : SameRun task { task with isSocketReady := ready } := ⟨rfl, rfl, rfl, rfl, rfl⟩
    rw [heq]
    exact ⟨hok.congr hsame, rfl, hsame.openRun⟩
  · have hflight := isConnected_inFlight hstate
    have hpos := hok.open_run hflight
    rw [heq, openRun_of_inFlight hflight hpos]
    refine ⟨?_, rfl, openRun_of_inFlight rfl hpos⟩
    exact (TaskOk.fail hok.keyed hpos io.leftover fmt args).congr ⟨rfl, rfl, rfl, rfl, rfl⟩

/-- The task of a job after a wait. -/
theorem wait_task {w : World} (hok : WorldOk w) (io : WaitReplies) {k : Int} {task' : CronTask}
    (hnew : (w.waitForEvent io).tasks.lookup k = some task') :
    ∃ task, w.tasks.lookup k = some task ∧
      (task' = task.unready ∨ task' = awaitTask io k task.unready) ∧
      TaskOk k task' ∧ task'.conn = task.conn ∧ task'.openRun = task.openRun := by
  rw [lookup_wait] at hnew
  obtain ⟨task, hold, rfl⟩ := Option.map_eq_some_iff.mp hnew
  have hsame := (idles_unready task).sameRun
  have hunready := (hok.tasks k task hold).congr hsame
  refine ⟨task, hold, ?_⟩
  by_cases hzero : w.waitTimeout io = 0
  · rw [if_pos hzero]
    exact ⟨Or.inl rfl, hunready, hsame.conn, hsame.openRun⟩
  · rw [if_neg hzero]
    obtain ⟨htask, hconn, hrun⟩ := awaitTask_owns io hunready
    exact ⟨Or.inr rfl, htask, hconn.trans hsame.conn, hrun.trans hsame.openRun⟩

/-- A wait leaves everybody what they own. -/
theorem wait_owns {w : World} (hok : WorldOk w) (io : WaitReplies) :
    (w.waitForEvent io).heldConn = w.heldConn ∧ (w.waitForEvent io).heldRun = w.heldRun := by
  have hcases : ∀ k, (w.waitForEvent io).heldConn k = w.heldConn k ∧
      (w.waitForEvent io).heldRun k = w.heldRun k := by
    intro k
    cases hnew : (w.waitForEvent io).tasks.lookup k with
    | none =>
      have hold := hnew
      rw [lookup_wait, Option.map_eq_none_iff] at hold
      unfold World.heldConn World.heldRun
      rw [hnew, hold]
      exact ⟨rfl, rfl⟩
    | some task' =>
      obtain ⟨task, hold, -, -, hconn, hrun⟩ := wait_task hok io hnew
      rw [heldConn_of_lookup hnew, heldConn_of_lookup hold, heldRun_of_lookup hnew,
        heldRun_of_lookup hold]
      exact ⟨hconn, hrun⟩
  exact ⟨funext fun k => (hcases k).1, funext fun k => (hcases k).2⟩

/-- A wait records nothing about runs. -/
theorem runLog_wait (w : World) (io : WaitReplies) :
    (w.waitForEvent io).runLog = w.runLog := by
  obtain ⟨entries, htrace, hentries⟩ := trace_wait w io
  have hnoRuns : (entries.flatMap fun e => e.call.runEvents) = [] := by
    rw [List.flatMap_eq_nil_iff]
    intro entry hentry
    obtain ⟨task, conn, -, -, -, -, hcall⟩ := hentries entry hentry
    rw [hcall]; rfl
  rw [World.runLog, htrace, List.flatMap_append, hnoRuns, List.append_nil]
  rfl

/-- A wait keeps this: it uses each connection for its owner. -/
theorem WorldOk.waitForEvent {w : World} (hok : WorldOk w) (io : WaitReplies) :
    WorldOk (w.waitForEvent io) := by
  obtain ⟨entries, htrace, hentries⟩ := trace_wait w io
  obtain ⟨-, hnewConn, hhistory⟩ := wait_rest w io
  -- every event of a wait is a use by the owner of the connection
  have huses : ∀ e ∈ entries.flatMap fun e => e.call.connEvents,
      ∃ k conn, e = .use conn ∧ w.heldConn k = some conn := by
    intro e he
    obtain ⟨entry, hentry, he⟩ := List.mem_flatMap.mp he
    obtain ⟨task, conn, hold, -, hconn, -, hcall⟩ := hentries entry hentry
    rw [hcall] at he
    refine ⟨entry.jobId, conn, by simpa [Call.connEvents] using he, ?_⟩
    rw [heldConn_of_lookup hold, hconn]
  have hconnLog : (w.waitForEvent io).connLog =
      w.connLog ++ entries.flatMap fun e => e.call.connEvents := by
    rw [World.connLog, htrace, List.flatMap_append]; rfl
  constructor
  · intro k task' hnew
    obtain ⟨-, -, -, htask, -, -⟩ := wait_task hok io hnew
    exact htask
  · rw [(wait_owns hok io).1, hconnLog]; exact hok.conns.uses huses
  · rw [hconnLog, hnewConn]
    intro e he
    rcases List.mem_append.mp he with he | he
    · exact hok.conns_lt e he
    · -- a connection in use is older than the next one
      obtain ⟨k, conn, rfl, hk⟩ := huses e he
      show conn < w.newConn
      exact hok.conns_lt (.acquire conn) (hok.conns.live k conn hk).1
  · rw [(wait_owns hok io).2, runLog_wait]; exact hok.runs
  · rw [runLog_wait, hhistory]; exact hok.runs_le

/-! ### The invariant along steps of tasks -/

/-- Ids of runs are positive. -/
theorem nextRunId_pos (h : History) (gap : Nat) : 0 < h.nextRunId gap := by
  have := h.nonneg
  unfold History.nextRunId
  omega

/-- The history only grows its sequence, past every run it inserts. -/
theorem lastRunId_foldl_apply (calls : List Call) (h : History) :
    h.lastRunId ≤ (calls.foldl History.apply h).lastRunId ∧
      ∀ r ∈ Ledger.acquired (calls.flatMap Call.runEvents),
        r ≤ (calls.foldl History.apply h).lastRunId := by
  induction calls generalizing h with
  | nil => exact ⟨le_refl _, by simp⟩
  | cons call calls ih =>
    obtain ⟨hle, hacquired⟩ := ih (h.apply call)
    -- one call: only an insertion draws an id
    have hstep : h.lastRunId ≤ (h.apply call).lastRunId ∧
        ∀ r ∈ Ledger.acquired call.runEvents, r ≤ (h.apply call).lastRunId := by
      cases call with
      | insertRun runId jobId database userName startTime =>
        refine ⟨le_max_left _ _, fun r hr => ?_⟩
        obtain rfl : r = runId := by simpa [Call.runEvents] using hr
        exact le_max_right _ _
      | updatePID runId pid =>
        refine ⟨?_, by simp [Call.runEvents]⟩
        show h.lastRunId ≤ (if pid = 0 then h else h.updateRun runId _).lastRunId
        by_cases hpid : pid = 0
        · rw [if_pos hpid]
        · rw [if_neg hpid]; exact le_refl h.lastRunId
      | finishRun runId status message endTime => exact ⟨le_refl _, by simp [Call.runEvents]⟩
      | connectStartParams params conn => exact ⟨le_refl _, by simp [Call.runEvents]⟩
      | sendQuery conn command sent => exact ⟨le_refl _, by simp [Call.runEvents]⟩
      | getResult conn result busy => exact ⟨le_refl _, by simp [Call.runEvents]⟩
      | finish conn => exact ⟨le_refl _, by simp [Call.runEvents]⟩
      | use function conn => exact ⟨le_refl _, by simp [Call.runEvents]⟩
    refine ⟨le_trans hstep.1 hle, fun r hr => ?_⟩
    rw [List.flatMap_cons, Ledger.acquired_append, List.mem_append] at hr
    rcases hr with hr | hr
    · exact le_trans (hstep.2 r hr) hle
    · exact hacquired r hr

section Managed

variable {w : World} {jobId : Int} {task : CronTask} (hok : WorldOk w)
  (hold : w.tasks.lookup jobId = some task) (currentTime : Int) (gap : Nat) (io : Replies)
include hold

/-- A turn adds its events to the log of the connections. -/
theorem connLog_manage : (w.manage jobId currentTime gap io).connLog =
    w.connLog ++ (w.turn task currentTime gap io).calls.flatMap Call.connEvents := by
  rw [manage_eq hold, World.connLog, List.flatMap_append, Turn.entries, List.flatMap_map]
  rfl

theorem runLog_manage : (w.manage jobId currentTime gap io).runLog =
    w.runLog ++ (w.turn task currentTime gap io).calls.flatMap Call.runEvents := by
  rw [manage_eq hold, World.runLog, List.flatMap_append, Turn.entries, List.flatMap_map]
  rfl

/-- What the task owns after its turn; the others keep what they own. -/
theorem held_manage (k : Int) :
    (w.manage jobId currentTime gap io).heldConn k =
        (if k = jobId then (w.turn task currentTime gap io).fate.conn else w.heldConn k) ∧
      (w.manage jobId currentTime gap io).heldRun k =
        (if k = jobId then (w.turn task currentTime gap io).fate.openRun else w.heldRun k) := by
  unfold World.heldConn World.heldRun
  by_cases hk : k = jobId
  · rw [if_pos hk, if_pos hk, hk, lookup_manage_self hold]
    show (Fate.task (w.turn task currentTime gap io).fate).bind _ = _ ∧
      (Fate.task (w.turn task currentTime gap io).fate).bind _ = _
    cases (w.turn task currentTime gap io).fate <;> exact ⟨rfl, rfl⟩
  · rw [if_neg hk, if_neg hk, lookup_manage_ne hk]
    exact ⟨rfl, rfl⟩

include hok

/-- The turn of a task keeps to its connection. -/
theorem turn_owns_conn : Ledger.Owns (w.heldConn jobId)
    ((w.turn task currentTime gap io).calls.flatMap Call.connEvents)
    (w.turn task currentTime gap io).fate.conn w.newConn := by
  rw [heldConn_of_lookup hold]
  exact (turn_outcome w task currentTime gap io).owns_conn (hok.tasks jobId task hold)

/-- The turn of a task keeps to its run. -/
theorem turn_owns_run : Ledger.Owns (w.heldRun jobId)
    ((w.turn task currentTime gap io).calls.flatMap Call.runEvents)
    (w.turn task currentTime gap io).fate.openRun (w.history.nextRunId gap) := by
  rw [heldRun_of_lookup hold]
  exact (turn_outcome w task currentTime gap io).owns_run (hok.tasks jobId task hold)
    (nextRunId_pos w.history gap)

/-- A turn keeps the discipline of the connections. -/
theorem conns_manage : Ledger.Disciplined (w.manage jobId currentTime gap io).heldConn
    (w.manage jobId currentTime gap io).connLog := by
  rw [connLog_manage hold]
  refine hok.conns.owns (turn_owns_conn hok hold currentTime gap io)
    (fun e he => ne_of_lt (hok.conns_lt e he)) ?_ fun k hk => ?_
  · rw [(held_manage hold currentTime gap io jobId).1, if_pos rfl]
  · rw [(held_manage hold currentTime gap io k).1, if_neg hk]

/-- A turn keeps the discipline of the runs. -/
theorem runs_manage : Ledger.Disciplined (w.manage jobId currentTime gap io).heldRun
    (w.manage jobId currentTime gap io).runLog := by
  rw [runLog_manage hold]
  refine hok.runs.owns (turn_owns_run hok hold currentTime gap io) (fun e he => ?_) ?_
    fun k hk => ?_
  · have hle := hok.runs_le e he
    unfold History.nextRunId
    omega
  · rw [(held_manage hold currentTime gap io jobId).2, if_pos rfl]
  · rw [(held_manage hold currentTime gap io k).2, if_neg hk]

/-- **A turn** keeps this. -/
theorem WorldOk.manageSome : WorldOk (w.manage jobId currentTime gap io) := by
  have hconns := conns_manage hok hold currentTime gap io
  have hruns := runs_manage hok hold currentTime gap io
  obtain ⟨hlast, hinserted⟩ :=
    lastRunId_foldl_apply (w.turn task currentTime gap io).calls w.history
  constructor
  · intro k task' hnew
    by_cases hk : k = jobId
    · subst hk
      rw [lookup_manage_self hold] at hnew
      apply (turn_outcome w task currentTime gap io).taskOk (hok.tasks k task hold)
        (nextRunId_pos w.history gap)
      show (w.turn task currentTime gap io).fate = .kept task'
      change Fate.task (w.turn task currentTime gap io).fate = some task' at hnew
      -- the task is kept by its turn, or gone
      cases hfate : (w.turn task currentTime gap io).fate with
      | kept t => rw [hfate] at hnew; rw [Option.some.inj hnew]
      | removed => rw [hfate] at hnew; exact absurd hnew (by simp [Fate.task])
    · rw [lookup_manage_ne hk] at hnew
      exact hok.tasks k task' hnew
  · exact hconns
  · intro e he
    rw [connLog_manage hold] at he hconns
    have hnew : (w.manage jobId currentTime gap io).newConn = w.newConn + 1 := by
      rw [manage_eq hold]
    rw [hnew]
    -- the handles of the turn are the one held before and the fresh one
    rcases hconns.handle_cases (turn_owns_conn hok hold currentTime gap io) he with
      ⟨e', he', heq⟩ | heq
    · have := hok.conns_lt e' he'
      omega
    · omega
  · exact hruns
  · intro e he
    rw [runLog_manage hold] at he hruns
    have hnew : (w.manage jobId currentTime gap io).history.lastRunId =
        ((w.turn task currentTime gap io).calls.foldl History.apply w.history).lastRunId := by
      rw [manage_eq hold]
    rw [hnew]
    -- a run is old, or inserted by this turn
    rcases List.mem_append.mp (hruns.known e he) with hmem | hmem
    · have hle : e.handle ≤ w.history.lastRunId := hok.runs_le (.acquire e.handle) hmem
      exact le_trans hle hlast
    · exact hinserted _ (Ledger.mem_acquired.mpr hmem)

end Managed

/-- A turn keeps this, whether the job has a task or not. -/
theorem WorldOk.manage {w : World} (hok : WorldOk w) (jobId currentTime : Int) (gap : Nat)
    (io : Replies) : WorldOk (w.manage jobId currentTime gap io) := by
  cases hold : w.tasks.lookup jobId with
  | none => rw [manage_none hold]; exact hok
  | some task => exact hok.manageSome hold currentTime gap io

/-! ### Steps and runs -/

/-- The steps that are neither a wait nor the turn of a task leave the runs alone. -/
theorem step_cases (w : World) (l : Label) :
    Quiet w (w.step l) ∨ (∃ io, l = .wait io) ∨
      ∃ jobId currentTime gap io, l = .manage jobId currentTime gap io := by
  cases l with
  | invalidate => exact Or.inl (quiet_of_tasks rfl rfl rfl rfl)
  | sighup statementTimeout => exact Or.inl (quiet_of_tasks rfl rfl rfl rfl)
  | reload source currentTime => exact Or.inl (quiet_reload w source currentTime)
  | startPending currentTime => exact Or.inl (quiet_startPending w currentTime)
  | wait io => exact Or.inr (Or.inl ⟨io, rfl⟩)
  | manage jobId currentTime gap io => exact Or.inr (Or.inr ⟨jobId, currentTime, gap, io, rfl⟩)
  | deleteRuns gone => exact Or.inl (quiet_of_tasks rfl rfl rfl rfl)

/-- The record of calls only grows. -/
theorem trace_step (w : World) (l : Label) :
    ∃ entries, (w.step l).trace = w.trace ++ entries := by
  rcases step_cases w l with hquiet | ⟨io, rfl⟩ | ⟨jobId, currentTime, gap, io, rfl⟩
  · exact ⟨[], by rw [hquiet.trace, List.append_nil]⟩
  · obtain ⟨entries, htrace, -⟩ := trace_wait w io
    exact ⟨entries, htrace⟩
  · cases hold : w.tasks.lookup jobId with
    | none =>
      refine ⟨[], ?_⟩
      rw [World.step, manage_none hold, List.append_nil]
    | some task =>
      refine ⟨(w.turn task currentTime gap io).entries jobId currentTime, ?_⟩
      rw [World.step, manage_eq hold]

/-- A run that was started stays started. -/
theorem runLog_step {w : World} {r : Int} (h : .acquire r ∈ w.runLog) (l : Label) :
    .acquire r ∈ (w.step l).runLog := by
  obtain ⟨entries, htrace⟩ := trace_step w l
  rw [World.runLog, htrace, List.flatMap_append]
  exact List.mem_append_left _ h

/-- **The invariant is kept by every step.** -/
theorem WorldOk.step {w : World} (hok : WorldOk w) (l : Label) : WorldOk (w.step l) := by
  rcases step_cases w l with hquiet | ⟨io, rfl⟩ | ⟨jobId, currentTime, gap, io, rfl⟩
  · exact hok.quiet hquiet
  · exact hok.waitForEvent io
  · exact hok.manage jobId currentTime gap io

/-- **The invariant holds in every state a worker reaches.** -/
theorem WorldOk.run {w : World} (hok : WorldOk w) (ls : List Label) :
    WorldOk (Machine.run World.step w ls) :=
  Machine.run_induction (fun _ l h => h.step l) ls hok

end NedoCron
