import NedoCron.ManageTask
import NedoCron.Scheduler
import NedoCron.Lib.Machine

namespace NedoCron

/-!
# nedo_cron — the worker

The process memory of the background worker together with the run history it writes, and the
steps its loop is made of: configuration changes, invalidations, reloads, scheduling passes,
waits and steps of single tasks.  `World.loopIteration` is the body of the loop of
`PgOctopusWorkerMain`, and every iteration is a run of steps (`loopIteration_reaches`), so what
holds in any order of steps holds at every loop boundary.

`World.trace` records the calls with an effect outside the worker, each with the job and the
run it was made for and the clock reading of its step.
-/

/-! ### The run history -/

/-- A row of `nedo_cron.job_run_details`. -/
structure RunRow where
  jobid : Int
  jobPid : Option Int
  database : CString
  username : CString
  status : RunStatus
  returnMessage : Option CString
  startTime : Int
  endTime : Option Int
  deriving DecidableEq

/-- `nedo_cron.job_run_details` and the sequence its ids come from. -/
structure History where
  runs : Table Int RunRow
  lastRunId : Int
  nonneg : 0 ≤ lastRunId
  bounded : ∀ r ∈ runs.keys, r ≤ lastRunId

/-- The next id of the sequence, after `gap` ids that other sessions have drawn. -/
def History.nextRunId (h : History) (gap : Nat) : Int := h.lastRunId + 1 + gap

/-- Insert a row under its id. -/
def History.insertRun (h : History) (runId : Int) (row : RunRow) : History where
  runs := h.runs.insert runId row
  lastRunId := max h.lastRunId runId
  nonneg := le_trans h.nonneg (le_max_left _ _)
  bounded r hr := by
    rcases AList.mem_insert h.runs |>.mp (AList.mem_keys.mpr hr) with rfl | hr
    · exact le_max_right _ _
    · exact le_trans (h.bounded r hr) (le_max_left _ _)

/-- `UPDATE … WHERE run_id = …`, of one row or none. -/
def History.updateRun (h : History) (runId : Int) (f : RunRow → RunRow) : History where
  runs := Table.adjust runId f h.runs
  lastRunId := h.lastRunId
  nonneg := h.nonneg
  bounded r hr := h.bounded r (by simpa [Table.adjust] using hr)

/-- Rows disappear, as by the cascade of a deleted job. -/
def History.deleteRuns (h : History) (gone : Int → Bool) : History where
  runs := Table.keep (fun r _ => !gone r) h.runs
  lastRunId := h.lastRunId
  nonneg := h.nonneg
  bounded r hr := by
    have hsub : (Table.keep (fun r _ => !gone r) h.runs).keys.Sublist h.runs.keys :=
      List.filter_sublist.map _
    exact h.bounded r (hsub.subset hr)

/-- What the SQL statement of a call does: insert the row of a new run, note the PID of its
    backend unless it is 0, or record how it ended. -/
def History.apply (h : History) : Call → History
  | .insertRun runId jobId database userName startTime =>
    h.insertRun runId
      { jobid := jobId
        jobPid := none
        database := database
        username := userName
        status := .starting
        returnMessage := none
        startTime := startTime
        endTime := none }
  | .updatePID runId pid =>
    if pid = 0 then h
    else h.updateRun runId fun row => { row with status := .running, jobPid := some pid }
  | .finishRun runId status message endTime =>
    h.updateRun runId fun row =>
      { row with status := status, returnMessage := message, endTime := some endTime }
  | _ => h

/-! ### Reloading -/

/-- What a reload reads: whether it may read at all, the rows, and the memory in which new
    tasks are created. -/
structure ReloadSource where
  recoveryInProgress : Bool
  cronLoaded : Bool
  table : JobsTable
  entry : Int → CronTask

/-- Mark the task of a loaded job active, creating it if there is none. -/
def activateTask (entry : Int → CronTask) (tasks : Table Int CronTask) (jobId : Int) :
    Table Int CronTask :=
  Table.adjust jobId (fun task => { task with isActive := true })
    (getCronTask (entry jobId) tasks jobId)

/-- `ReloadCronJobs`: the new job table, and the tasks with their active flags. -/
def reloadCronJobs (tasks : Table Int CronTask) (source : ReloadSource) :
    Table Int CronJob × Table Int CronTask :=
  let jobs := loadJobsList source.recoveryInProgress source.cronLoaded source.table
  let inactive := Table.mapEntries (fun _ task => { task with isActive := false }) tasks
  (jobs, jobs.keys.foldl (activateTask source.entry) inactive)

/-! ### Waiting -/

/-- `TaskNeedsSocketWait`. -/
def taskNeedsSocketWait (task : CronTask) : Bool :=
  task.state = .connecting || task.state = .sending || task.state = .running

/-- `WL_SOCKET_READABLE` and `WL_SOCKET_WRITEABLE`. -/
inductive SocketEvent where
  | readable
  | writeable
  deriving DecidableEq

/-- `TaskWaitEvents`; `none` is 0. -/
def taskWaitEvents (task : CronTask) : Option SocketEvent :=
  match task.pollingStatus with
  | .reading => some .readable
  | .writing => some .writeable
  | _ => none

/-- `MaxSleep`, in milliseconds. -/
def maxSleep : Int := 1000

/-- The earlier of a deadline and the next event so far. -/
def earlierEvent (deadline nextEventTime : Int) : Int :=
  if timestampDifferenceExceeds deadline nextEventTime 0 then deadline else nextEventTime

/-- The next event after a task's own deadlines have been looked at. -/
def nextTaskEvent (jobs : Table Int CronJob) (task : CronTask) (nextEventTime : Int) : Int :=
  let next :=
    if (getCronJob jobs task.jobId).any (fun job => job.schedule.seconds) ∧ task.nextRunTime ≠ 0
    then earlierEvent task.nextRunTime nextEventTime else nextEventTime
  let next :=
    if (task.state = .connecting ∨ task.state = .sending) ∧ task.startDeadline ≠ 0
    then earlierEvent task.startDeadline next else next
  if task.state = .running ∧ task.runDeadline ≠ 0 ∧ task.cancelRequested = false
  then earlierEvent task.runDeadline next else next

/-- The loop of `CalculateWaitTimeout`; `none` when a pending run must start at once. -/
def nextEvent (jobs : Table Int CronJob) : List CronTask → Int → Option Int
  | [], nextEventTime => some nextEventTime
  | task :: tasks, nextEventTime =>
    if task.state = .waiting ∧ task.pendingRunCount > 0 then none
    else nextEvent jobs tasks (nextTaskEvent jobs task nextEventTime)

/-- `CalculateWaitTimeout`, in milliseconds. -/
def calculateWaitTimeout (jobs : Table Int CronJob) (taskList : List CronTask)
    (currentTime : Int) : Int :=
  match nextEvent jobs taskList (endOfMinute currentTime) with
  | none => 0
  | some nextEventTime =>
    let wait := timestampDifference currentTime nextEventTime
    let timeoutMs := toInt32 (toInt32 (toInt32 wait.1 * 1000) + wait.2 / 1000)
    if timeoutMs < 0 then 0 else if timeoutMs > maxSleep then maxSleep else timeoutMs

/-- What the functions called during a wait return. -/
structure WaitReplies where
  /-- `GetCurrentTimestamp` -/
  timestamp : Int
  /-- `PQsocket` -/
  socket : Nat → Int
  /-- the tasks whose sockets are ready when the wait ends -/
  ready : Int → Bool
  /-- what an undefined conversion of a format leaves in the buffer -/
  leftover : CString

/-- Registering the socket of a task in `WaitForEvent`: the task, whether it is registered,
    and the calls. -/
def registerTask (io : WaitReplies) (task : CronTask) : CronTask × Bool × List Call :=
  if taskNeedsSocketWait task = false ∨ taskWaitEvents task = none then (task, false, [])
  else match task.conn with
    | none =>
      (task.fail io.leftover (ascii "[my_nedo_cron] connection is NULL, job_id: %ld")
        [.int task.jobId], false, [])
    | some conn =>
      if io.socket conn < 0 then
        ({ task.fail io.leftover (ascii "[my_nedo_cron] connection socket < 0, job_id: %ld")
            [.int task.jobId] with pollingStatus := .reading }, false, uses [.socket] (some conn))
      else (task, true, uses [.socket] (some conn))

/-- A task after a wait that looked at the sockets. -/
def awaitTask (io : WaitReplies) (jobId : Int) (task : CronTask) : CronTask :=
  let registered := registerTask io task
  if registered.2.1 && io.ready jobId then { registered.1 with isSocketReady := true }
  else registered.1

/-! ### The worker's state -/

/-- `nedo_cron.statement_timeout_ms`, within the bounds of its definition. -/
structure StatementTimeout where
  ms : Int
  nonneg : 0 ≤ ms
  le_max : ms ≤ intMax

/-- A recorded call: the job and the run it was made for, and the time of its step. -/
structure Entry where
  jobId : Int
  run : Int
  time : Int
  call : Call
  deriving DecidableEq

/-- The worker's memory, the run history, and the calls made so far. -/
structure World where
  /-- `CronJobHashTable` -/
  jobs : Table Int CronJob
  /-- `CronTaskHashTable` -/
  tasks : Table Int CronTask
  /-- `CronJobCacheValid` -/
  cacheValid : Bool
  /-- `StatementTimeoutMs` -/
  statementTimeout : StatementTimeout
  /-- the static `lastMinute` of `StartPendingTasks` -/
  lastMinute : Int
  /-- `lastJobReloadTime` -/
  lastJobReloadTime : Int
  history : History
  /-- the handle the next connection gets -/
  newConn : Nat
  trace : List Entry

/-- A worker that has just been started. -/
def World.launch (statementTimeout : StatementTimeout) (history : History) : World where
  jobs := ∅
  tasks := ∅
  cacheValid := false
  statementTimeout := statementTimeout
  lastMinute := 0
  lastJobReloadTime := 0
  history := history
  newConn := 0
  trace := []

/-! ### Steps -/

/-- `ReloadCronJobs`, with the time of the reload. -/
def World.reload (w : World) (source : ReloadSource) (currentTime : Int) : World :=
  let loaded := reloadCronJobs w.tasks source
  { w with
    jobs := loaded.1
    tasks := loaded.2
    cacheValid := true
    lastJobReloadTime := currentTime }

/-- `StartPendingTasks`. -/
def World.startPending (w : World) (currentTime : Int) : World :=
  let pass := startPendingTasks w.jobs w.lastMinute w.tasks currentTime
  { w with tasks := pass.1, lastMinute := pass.2 }

/-- The calls of a wait on the sockets of all tasks. -/
def waitEntries (io : WaitReplies) (tasks : Table Int CronTask) : List Entry :=
  tasks.entries.flatMap fun e =>
    (registerTask io e.2).2.2.map fun call => ⟨e.1, e.2.runId, io.timestamp, call⟩

/-- Readiness of a socket is reported anew by each wait. -/
def CronTask.unready (task : CronTask) : CronTask := { task with isSocketReady := false }

/-- The task table at the start of a wait. -/
def World.unreadyTasks (w : World) : Table Int CronTask :=
  Table.mapEntries (fun _ => CronTask.unready) w.tasks

/-- The time a wait may take, in milliseconds. -/
def World.waitTimeout (w : World) (io : WaitReplies) : Int :=
  calculateWaitTimeout w.jobs (w.unreadyTasks.entries.map fun e => e.2) io.timestamp

/-- `WaitForEvent`; without time to wait it does not look at the sockets. -/
def World.waitForEvent (w : World) (io : WaitReplies) : World :=
  let tasks := w.unreadyTasks
  if w.waitTimeout io = 0 then { w with tasks := tasks }
  else
    { w with
      tasks := Table.mapEntries (awaitTask io) tasks
      trace := w.trace ++ waitEntries io tasks }

/-- What a step of a task reads in the worker's state. -/
def World.context (w : World) (task : CronTask) (currentTime : Int) (gap : Nat) : StepContext where
  job := getCronJob w.jobs task.jobId
  statementTimeoutMs := w.statementTimeout.ms
  currentTime := currentTime
  newRunId := w.history.nextRunId gap
  newConn := w.newConn

/-- The task table after a task's step. -/
def Fate.apply (fate : Fate) (tasks : Table Int CronTask) (jobId : Int) : Table Int CronTask :=
  match fate with
  | .kept task => Table.adjust jobId (fun _ => task) tasks
  | .removed => tasks.erase jobId

/-- `ManageCronTask` on the task of a job, if there is one. -/
def World.manage (w : World) (jobId currentTime : Int) (gap : Nat) (io : Replies) : World :=
  match w.tasks.lookup jobId with
  | none => w
  | some task =>
    let turn := manageCronTask (w.context task currentTime gap) task io
    { w with
      tasks := turn.fate.apply w.tasks jobId
      history := turn.calls.foldl History.apply w.history
      newConn := w.newConn + 1
      trace := w.trace ++ turn.calls.map fun call => ⟨jobId, turn.run, currentTime, call⟩ }

/-- The steps the worker's loop is made of, and what happens around it. -/
inductive Label where
  /-- `CronJobRelcacheCallback` -/
  | invalidate
  /-- a configuration change after SIGHUP -/
  | sighup (statementTimeout : StatementTimeout)
  /-- `ReloadCronJobs` -/
  | reload (source : ReloadSource) (currentTime : Int)
  /-- `StartPendingTasks` -/
  | startPending (currentTime : Int)
  /-- `WaitForEvent` -/
  | wait (io : WaitReplies)
  /-- `ManageCronTask` on the task of a job -/
  | manage (jobId currentTime : Int) (gap : Nat) (io : Replies)
  /-- rows of the history are deleted -/
  | deleteRuns (gone : Int → Bool)

/-- One step. -/
def World.step (w : World) : Label → World
  | .invalidate => { w with cacheValid := false }
  | .sighup statementTimeout =>
    { w with statementTimeout := statementTimeout, cacheValid := false }
  | .reload source currentTime => w.reload source currentTime
  | .startPending currentTime => w.startPending currentTime
  | .wait io => w.waitForEvent io
  | .manage jobId currentTime gap io => w.manage jobId currentTime gap io
  | .deleteRuns gone => { w with history := w.history.deleteRuns gone }

/-! ### The loop -/

/-- What one iteration of the loop meets. -/
structure IterationInput where
  /-- `GetCurrentTimestamp` at the top of the loop -/
  currentTime : Int
  /-- an invalidation of the jobs table is accepted -/
  invalidated : Bool
  /-- `sighupFlag`, with the new setting -/
  sighup : Option StatementTimeout
  source : ReloadSource
  wait : WaitReplies
  /-- `GetCurrentTimestamp` after the wait -/
  manageTime : Int
  gap : Int → Nat
  replies : Int → Replies

/-- The jobs are reloaded after an invalidation, at the start, and every 60 seconds. -/
def World.mustReload (w : World) (currentTime : Int) : Bool :=
  !w.cacheValid || w.lastJobReloadTime == 0 ||
    timestampDifferenceExceeds w.lastJobReloadTime currentTime 60000

/-- `ManageCronTasks`: every task of the list makes one step. -/
def World.manageAll (w : World) (jobIds : List Int) (currentTime : Int) (gap : Int → Nat)
    (replies : Int → Replies) : World :=
  jobIds.foldl (fun w jobId => w.manage jobId currentTime (gap jobId) (replies jobId)) w

/-- The body of the loop of `PgOctopusWorkerMain`. -/
def World.loopIteration (w : World) (input : IterationInput) : World :=
  let w := if input.invalidated then w.step .invalidate else w
  let w := match input.sighup with
    | some statementTimeout => w.step (.sighup statementTimeout)
    | none => w
  let w := if w.mustReload input.currentTime then w.reload input.source input.currentTime else w
  let jobIds := w.tasks.keys
  let w := w.startPending input.currentTime
  let w := w.waitForEvent input.wait
  w.manageAll jobIds input.manageTime input.gap input.replies

/-- Rows are deleted by other sessions only. -/
def Label.isDeletion : Label → Bool
  | .deleteRuns _ => true
  | _ => false

/-- Some steps of the worker lead from one state to the other. -/
abbrev WorkerReaches : World → World → Prop :=
  Machine.ReachesBy World.step fun l => l.isDeletion = false

/-- The turns of an iteration are steps of the worker. -/
theorem manageAll_reaches (w : World) (jobIds : List Int) (currentTime : Int) (gap : Int → Nat)
    (replies : Int → Replies) :
    WorkerReaches w (w.manageAll jobIds currentTime gap replies) := by
  induction jobIds generalizing w with
  | nil => exact Machine.ReachesBy.refl _ w
  | cons jobId jobIds ih =>
    have hturn : WorkerReaches w (w.manage jobId currentTime (gap jobId) (replies jobId)) :=
      Machine.ReachesBy.single w
        (l := Label.manage jobId currentTime (gap jobId) (replies jobId)) rfl
    exact hturn.trans (ih _)

/-- **An iteration of the loop is a run of steps of the worker.** -/
theorem loopIteration_reaches (w : World) (input : IterationInput) :
    WorkerReaches w (w.loopIteration input) := by
  -- the three optional steps at the top of the loop
  have hinvalidate : ∀ w : World,
      WorkerReaches w (if input.invalidated then w.step .invalidate else w) := by
    intro w
    split
    · exact Machine.ReachesBy.single w (l := Label.invalidate) rfl
    · exact Machine.ReachesBy.refl _ w
  have hsighup : ∀ w : World, WorkerReaches w (match input.sighup with
      | some statementTimeout => w.step (.sighup statementTimeout)
      | none => w) := by
    intro w
    cases input.sighup with
    | some statementTimeout =>
      exact Machine.ReachesBy.single w (l := Label.sighup statementTimeout) rfl
    | none => exact Machine.ReachesBy.refl _ w
  have hreload : ∀ w : World, WorkerReaches w
      (if w.mustReload input.currentTime then w.reload input.source input.currentTime else w) := by
    intro w
    split
    · exact Machine.ReachesBy.single w
        (l := Label.reload input.source input.currentTime) rfl
    · exact Machine.ReachesBy.refl _ w
  have hstart : ∀ w : World, WorkerReaches w (w.startPending input.currentTime) := fun w =>
    Machine.ReachesBy.single w (l := Label.startPending input.currentTime) rfl
  have hwait : ∀ w : World, WorkerReaches w (w.waitForEvent input.wait) := fun w =>
    Machine.ReachesBy.single w (l := Label.wait input.wait) rfl
  have htop := ((hinvalidate w).trans (hsighup _)).trans (hreload _)
  exact ((htop.trans (hstart _)).trans (hwait _)).trans (manageAll_reaches _ _ _ _ _)

end NedoCron
