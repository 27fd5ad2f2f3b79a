import NedoCron.Worker

namespace NedoCron

/-!
# nedo_cron — what one step of a task can do

`Outcome` lists the outcomes of a call of `ManageCronTask`, each with the task afterwards and
the calls made; `manageCronTask_outcome` is the inversion every later invariant is derived
from.  The deadline check of a running query is factored out (`Checked`), since reading its
input follows in both cases.
-/

/-! ### Outcomes -/

/-- A run is under way on a connection. -/
def CronTaskState.isConnected (state : CronTaskState) : Bool :=
  state = .connecting || state = .sending || state = .running

/-- `PQgetCancel` and `PQcancel`. -/
def PqFunction.requestsCancel : PqFunction → Bool
  | .getCancel => true
  | .cancel => true
  | _ => false

/-- The deadline check of `case CRON_TASK_RUNNING` that does not fail: the task after it and
    the functions called so far. -/
inductive Checked (currentTime : Int) (task : CronTask) : CronTask → List PqFunction → Prop where
  | within : Checked currentTime task task [.status]
  | cancelled (hoverdue : task.overdue currentTime = true) :
      Checked currentTime task
        { task with
          cancelRequested := true
          timedOut := true
          runDeadline := 0
          pollingStatus := .reading }
        [.status, .getCancel, .cancel, .freeCancel]

/-- The status of a result that fails the run. -/
def ExecStatus.fails (status : ExecStatus) : Bool := status.isError || status.isCopy

/-- Fetching the given results. -/
def fetches (conn : Option Nat) (results : List (QueryResult × Bool)) : List Call :=
  results.map fun r => .getResult conn (some r.1) r.2

/-- The task at a result that fails the run: a cancelled query counts as timed out. -/
def CronTask.atResult (task : CronTask) (result : QueryResult) : CronTask :=
  if result.status.isError = true ∧ result.sqlState = some queryCanceled then
    { task with timedOut := true }
  else task

/-- The task after `PQfinish` in `case CRON_TASK_RUNNING`. -/
def CronTask.disconnected (task : CronTask) : CronTask :=
  { task with conn := none, pollingStatus := .failed, isSocketReady := false }

/-- What a call of `ManageCronTask` can do. -/
inductive Outcome (context : StepContext) (io : Replies) (task : CronTask) : Turn → Prop where
  /-- WAITING, inactive -/
  | removed (hstate : task.state = .waiting) (hactive : task.isActive = false) :
      Outcome context io task ⟨task.runId, .removed, []⟩
  /-- WAITING, nothing due -/
  | idle (hstate : task.state = .waiting) : Outcome context io task (.keep task [])
  /-- WAITING, a run is due -/
  | due (hstate : task.state = .waiting) (hpending : task.pendingRunCount ≠ 0) :
      Outcome context io task
        (.keep { task with pendingRunCount := task.pendingRunCount - 1, state := .start } [])
  /-- START without a connection -/
  | refused (job : CronJob) (hjob : context.job = some job) (hstate : task.state = .start)
      (fmt : CString) (args : List FmtArg) :
      Outcome context io task
        (.keep ({ task with runId := context.newRunId }.fail io.leftover fmt args)
          [.insertRun context.newRunId job.jobId job.database job.userName io.timestamp,
            .connectStartParams (connectParams job context.statementTimeoutMs io.dbEncoding) none])
  /-- START with an unusable connection -/
  | unusable (job : CronJob) (hjob : context.job = some job) (hstate : task.state = .start)
      (functions : List PqFunction) (hcancel : ∀ f ∈ functions, f.requestsCancel = false)
      (fmt : CString) (args : List FmtArg) :
      Outcome context io task
        (.keep ({ task with runId := context.newRunId, conn := some context.newConn }.fail
            io.leftover fmt args)
          (.insertRun context.newRunId job.jobId job.database job.userName io.timestamp ::
            .connectStartParams (connectParams job context.statementTimeoutMs io.dbEncoding)
              (some context.newConn) :: uses functions (some context.newConn)))
  /-- START with a connection under way -/
  | opened (job : CronJob) (hjob : context.job = some job) (hstate : task.state = .start) :
      Outcome context io task
        (.keep
          { task with
            runId := context.newRunId
            conn := some context.newConn
            startDeadline := timestampTzPlusMilliseconds context.currentTime taskTimeout
            pollingStatus := .writing
            state := .connecting }
          (.insertRun context.newRunId job.jobId job.database job.userName io.timestamp ::
            .connectStartParams (connectParams job context.statementTimeoutMs io.dbEncoding)
              (some context.newConn) ::
            uses [.setnonblocking, .status] (some context.newConn)))
  /-- CONNECTING, SENDING or RUNNING, into ERROR -/
  | failed (hstate : task.state.isConnected = true) (functions : List PqFunction)
      (hcancel : ∀ f ∈ functions, f.requestsCancel = false) (fmt : CString) (args : List FmtArg) :
      Outcome context io task
        (.keep (task.fail io.leftover fmt args) (uses functions task.conn))
  /-- CONNECTING or SENDING, no progress yet -/
  | waits (hstate : task.state = .connecting ∨ task.state = .sending)
      (functions : List PqFunction) (hcancel : ∀ f ∈ functions, f.requestsCancel = false)
      (pollingStatus : PollingStatus) :
      Outcome context io task
        (.keep { task with pollingStatus := pollingStatus } (uses functions task.conn))
  /-- CONNECTING to SENDING -/
  | connected (hstate : task.state = .connecting) :
      Outcome context io task
        (.keep { task with pollingStatus := .writing, state := .sending }
          (uses [.status, .connectPoll, .backendPID] task.conn ++
            [.updatePID task.runId io.backendPID]))
  /-- SENDING to RUNNING -/
  | sent (job : CronJob) (hjob : context.job = some job) (hstate : task.state = .sending) :
      Outcome context io task
        (.keep
          { task with
            pollingStatus := .reading
            state := .running
            startDeadline := 0
            runDeadline :=
              timestampTzPlusMilliseconds context.currentTime context.statementTimeoutMs
            cancelRequested := false
            timedOut := false }
          (uses [.status] task.conn ++ [.sendQuery task.conn job.command true]))
  /-- SENDING, the query is refused -/
  | unsent (job : CronJob) (hjob : context.job = some job) (hstate : task.state = .sending)
      (fmt : CString) (args : List FmtArg) :
      Outcome context io task
        (.keep (task.fail io.leftover fmt args)
          (uses [.status] task.conn ++ [.sendQuery task.conn job.command false] ++
            uses [.errorMessage] task.conn))
  /-- RUNNING, the overdue query cannot be cancelled -/
  | notCancelled (hstate : task.state = .running)
      (hoverdue : task.overdue context.currentTime = true) (functions : List PqFunction)
      (hone : functions.Nodup) (fmt : CString) (args : List FmtArg)
      (cancelRequested : Bool) (runDeadline : Int) :
      Outcome context io task
        (.keep
          { task.fail io.leftover fmt args with
            timedOut := true
            cancelRequested := cancelRequested
            runDeadline := runDeadline }
          (uses functions task.conn))
  /-- RUNNING, no result yet -/
  | runs (hstate : task.state = .running) (base : CronTask) (functions more : List PqFunction)
      (hchecked : Checked context.currentTime task base functions)
      (hcancel : ∀ f ∈ more, f.requestsCancel = false) :
      Outcome context io task (.keep base (uses (functions ++ more) task.conn))
  /-- RUNNING, the input cannot be read -/
  | unread (hstate : task.state = .running) (base : CronTask) (functions more : List PqFunction)
      (hchecked : Checked context.currentTime task base functions)
      (hcancel : ∀ f ∈ more, f.requestsCancel = false)
      (fmt : CString) (args : List FmtArg) :
      Outcome context io task
        (.keep (base.fail io.leftover fmt args) (uses (functions ++ more) task.conn))
  /-- RUNNING to DONE, all results are read -/
  | succeeded (hstate : task.state = .running) (base : CronTask)
      (functions more : List PqFunction)
      (hchecked : Checked context.currentTime task base functions)
      (hcancel : ∀ f ∈ more, f.requestsCancel = false)
      (hread : ∀ r ∈ io.results, r.1.status.fails = false) :
      Outcome context io task
        (.keep { base.disconnected with state := .done }
          (uses (functions ++ more) task.conn ++ fetches task.conn io.results ++
            [.getResult task.conn none io.lastBusy, .finish task.conn,
              .finishRun task.runId .succeeded (some (ascii "OK")) io.timestamp]))
  /-- RUNNING to ERROR, at a result that fails the run -/
  | resultFailed (hstate : task.state = .running) (base : CronTask)
      (functions more : List PqFunction)
      (hchecked : Checked context.currentTime task base functions)
      (hcancel : ∀ f ∈ more, f.requestsCancel = false)
      (before after : List (QueryResult × Bool)) (result : QueryResult) (busy : Bool)
      (hresults : io.results = before ++ (result, busy) :: after)
      (hbefore : ∀ r ∈ before, r.1.status.fails = false) (hfails : result.status.fails = true)
      (fmt : CString) :
      Outcome context io task
        (.keep ((base.atResult result).fail io.leftover fmt []).disconnected
          (uses (functions ++ more) task.conn ++ fetches task.conn (before ++ [(result, busy)]) ++
            [.finish task.conn]))
  /-- ERROR, also when the job is gone -/
  | closed (base : CronTask) (hstate : task.state ≠ .done)
      (hbase : (base = task ∧ task.state = .error) ∨
        (context.job = none ∧ base =
          { setTaskError io.leftover task (ascii "job metadata not found") [] with
            state := .error })) :
      Outcome context io task (manageError base io)
  /-- DONE -/
  | reset (hstate : task.state = .done ∨ task.state = .receiving) :
      Outcome context io task (manageDone task)

/-! ### Inversion -/

/-- What the ERROR step makes of a task that it keeps. -/
def CronTask.closed (task : CronTask) : CronTask :=
  { task with
    runId := 0
    conn := none
    state := .done
    pollingStatus := .failed
    startDeadline := 0
    runDeadline := 0
    cancelRequested := false
    isSocketReady := false }

@[simp] theorem CronTask.closed_state (task : CronTask) : task.closed.state = .done := rfl

/-- **The ERROR step** keeps a task only if it is active, and then gives its run up. -/
theorem manageError_kept {base task' : CronTask} {io : Replies}
    (hkept : (manageError base io).fate = .kept task') :
    base.isActive = true ∧ task' = base.closed := by
  unfold manageError at hkept
  dsimp only at hkept
  split at hkept
  · cases hkept
  · rename_i hactive
    exact ⟨Bool.eq_true_of_not_eq_false hactive, (Fate.kept.inj hkept).symm⟩

theorem uses_append (fs gs : List PqFunction) (conn : Option Nat) :
    uses (fs ++ gs) conn = uses fs conn ++ uses gs conn := by
  simp [uses]

variable {context : StepContext} {io : Replies} {task : CronTask}

/-- WAITING, with a run in the queue or without. -/
theorem manageWaiting_outcome (hstate : task.state = .waiting) :
    Outcome context io task (manageWaiting task) := by
  unfold manageWaiting
  split
  · exact .removed hstate ‹_›
  · split
    · exact .idle hstate
    · exact .due hstate ‹_›

/-- START: the connection is refused, or unusable, or opened. -/
theorem manageStart_outcome {job : CronJob} (hjob : context.job = some job)
    (hstate : task.state = .start) :
    Outcome context io task
      (manageStart task job context.statementTimeoutMs context.currentTime context.newRunId
        context.newConn io) := by
  unfold manageStart
  dsimp only
  split
  · exact .refused job hjob hstate _ _
  · split
    · exact .unusable job hjob hstate _ (by decide) _ _
    · split
      · exact .unusable job hjob hstate _ (by decide) _ _
      · exact .opened job hjob hstate

/-- CONNECTING: it fails, waits, or stands. -/
theorem manageConnecting_outcome (hstate : task.state = .connecting) :
    Outcome context io task (manageConnecting task context.currentTime io) := by
  have hconnected : task.state.isConnected = true := by rw [hstate]; rfl
  unfold manageConnecting
  split
  · exact .failed hconnected [] (by decide) _ _
  · split
    · exact .failed hconnected [] (by decide) _ _
    · split
      · exact .failed hconnected _ (by decide) _ _
      · split
        · exact .waits (Or.inl hstate) _ (by decide) task.pollingStatus
        · split
          · exact .connected hstate
          · exact .failed hconnected _ (by decide) _ _
          · exact .waits (Or.inl hstate) _ (by decide) _

/-- SENDING: it fails, waits, or the query is sent or not. -/
theorem manageSending_outcome {job : CronJob} (hjob : context.job = some job)
    (hstate : task.state = .sending) :
    Outcome context io task
      (manageSending task job context.statementTimeoutMs context.currentTime io) := by
  have hconnected : task.state.isConnected = true := by rw [hstate]; rfl
  unfold manageSending
  split
  · exact .failed hconnected [] (by decide) _ _
  · split
    · exact .failed hconnected [] (by decide) _ _
    · split
      · exact .failed hconnected _ (by decide) _ _
      · split
        · exact .waits (Or.inr hstate) _ (by decide) task.pollingStatus
        · split
          · exact .sent job hjob hstate
          · exact .unsent job hjob hstate _ _

/-- Results that do not fail the run are read up to `NULL`. -/
theorem readResults_all (conn : Option Nat) (leftover : CString) (lastBusy : Bool)
    (task : CronTask) {results : List (QueryResult × Bool)}
    (h : ∀ r ∈ results, r.1.status.fails = false) :
    readResults conn leftover lastBusy task results =
      (task, fetches conn results ++ [.getResult conn none lastBusy]) := by
  induction results with
  | nil => rfl
  | cons r results ih =>
    have hr := h r (by simp)
    rw [ExecStatus.fails, Bool.or_eq_false_iff] at hr
    rw [readResults, if_neg (by simp [hr.1]), if_neg (by simp [hr.2]),
      ih fun r hr => h r (by simp [hr])]
    rfl

/-- Reading stops at the first result that fails the run. -/
theorem readResults_stop (conn : Option Nat) (leftover : CString) (lastBusy : Bool)
    (task : CronTask) {before after : List (QueryResult × Bool)} {result : QueryResult}
    {busy : Bool} (h : ∀ r ∈ before, r.1.status.fails = false)
    (hfails : result.status.fails = true) :
    ∃ fmt, readResults conn leftover lastBusy task (before ++ (result, busy) :: after) =
      ((task.atResult result).fail leftover fmt [], fetches conn (before ++ [(result, busy)])) := by
  induction before with
  | nil =>
    rw [List.nil_append, readResults]
    -- the result that fails: an error, or a COPY
    by_cases herror : result.status.isError = true
    · rw [if_pos herror]
      refine ⟨result.message, ?_⟩
      by_cases hstate : result.sqlState = some queryCanceled
      · simp [CronTask.atResult, herror, hstate, fetches]
      · simp [CronTask.atResult, herror, hstate, fetches]
    · have hcopy : result.status.isCopy = true := by
        rw [ExecStatus.fails, Bool.or_eq_true] at hfails
        exact hfails.resolve_left herror
      rw [if_neg herror, if_pos hcopy]
      exact ⟨ascii "COPY not supported", by simp [CronTask.atResult, herror, fetches]⟩
  | cons r before ih =>
    -- the results before it are read on
    have hr := h r (by simp)
    rw [ExecStatus.fails, Bool.or_eq_false_iff] at hr
    obtain ⟨fmt, hrest⟩ := ih fun r hr => h r (by simp [hr])
    rw [List.cons_append, readResults, if_neg (by simp [hr.1]), if_neg (by simp [hr.2]), hrest]
    exact ⟨fmt, rfl⟩

/-- A list of results has a first one that fails the run, or none. -/
theorem results_cases (results : List (QueryResult × Bool)) :
    (∀ r ∈ results, r.1.status.fails = false) ∨
      ∃ before result busy after, results = before ++ (result, busy) :: after ∧
        (∀ r ∈ before, r.1.status.fails = false) ∧ result.status.fails = true := by
  induction results with
  | nil => exact Or.inl (by simp)
  | cons r results ih =>
    cases hr : r.1.status.fails with
    | true => exact Or.inr ⟨[], r.1, r.2, results, rfl, by simp, hr⟩
    | false =>
      rcases ih with hall | ⟨before, result, busy, after, rfl, hbefore, hfails⟩
      · exact Or.inl (by simpa [hr] using hall)
      · exact Or.inr ⟨r :: before, result, busy, after, rfl, by simpa [hr] using hbefore, hfails⟩

/-- The check of the deadline leaves the rest of the task alone. -/
theorem Checked.conn_eq {currentTime : Int} {base : CronTask} {functions : List PqFunction}
    (h : Checked currentTime task base functions) : base.conn = task.conn := by
  cases h <;> rfl

theorem Checked.runId_eq {currentTime : Int} {base : CronTask} {functions : List PqFunction}
    (h : Checked currentTime task base functions) : base.runId = task.runId := by
  cases h <;> rfl

theorem Checked.state_eq {currentTime : Int} {base : CronTask} {functions : List PqFunction}
    (h : Checked currentTime task base functions) : base.state = task.state := by
  cases h <;> rfl

theorem Checked.jobId_eq {currentTime : Int} {base : CronTask} {functions : List PqFunction}
    (h : Checked currentTime task base functions) : base.jobId = task.jobId := by
  cases h <;> rfl

theorem Checked.pendingRunCount_eq {currentTime : Int} {base : CronTask}
    {functions : List PqFunction} (h : Checked currentTime task base functions) :
    base.pendingRunCount = task.pendingRunCount := by
  cases h <;> rfl

theorem Checked.nextRunTime_eq {currentTime : Int} {base : CronTask}
    {functions : List PqFunction} (h : Checked currentTime task base functions) :
    base.nextRunTime = task.nextRunTime := by
  cases h <;> rfl

theorem Checked.isActive_eq {currentTime : Int} {base : CronTask} {functions : List PqFunction}
    (h : Checked currentTime task base functions) : base.isActive = task.isActive := by
  cases h <;> rfl

/-- A result that fails the run changes the timeout flag at most. -/
theorem CronTask.atResult_eq (task : CronTask) (result : QueryResult) :
    ∃ timedOut, task.atResult result = { task with timedOut := timedOut } := by
  unfold CronTask.atResult
  split
  · exact ⟨true, rfl⟩
  · exact ⟨task.timedOut, rfl⟩

@[simp] theorem CronTask.atResult_jobId (task : CronTask) (result : QueryResult) :
    (task.atResult result).jobId = task.jobId := by
  obtain ⟨timedOut, heq⟩ := task.atResult_eq result
  rw [heq]

@[simp] theorem CronTask.atResult_runId (task : CronTask) (result : QueryResult) :
    (task.atResult result).runId = task.runId := by
  obtain ⟨timedOut, heq⟩ := task.atResult_eq result
  rw [heq]

@[simp] theorem CronTask.atResult_pendingRunCount (task : CronTask) (result : QueryResult) :
    (task.atResult result).pendingRunCount = task.pendingRunCount := by
  obtain ⟨timedOut, heq⟩ := task.atResult_eq result
  rw [heq]

@[simp] theorem CronTask.atResult_isActive (task : CronTask) (result : QueryResult) :
    (task.atResult result).isActive = task.isActive := by
  obtain ⟨timedOut, heq⟩ := task.atResult_eq result
  rw [heq]

/-- Reading results after the deadline check. -/
theorem finishRunning_outcome (hstate : task.state = .running) {base : CronTask}
    {functions more : List PqFunction}
    (hchecked : Checked context.currentTime task base functions)
    (hcancel : ∀ f ∈ more, f.requestsCancel = false) :
    Outcome context io task
      { finishRunning base io with
        calls := uses (functions ++ more) task.conn ++ (finishRunning base io).calls } := by
  unfold finishRunning
  rw [hchecked.conn_eq]
  rcases results_cases io.results with
    hread | ⟨before, result, busy, after, hresults, hbefore, hfails⟩
  · have hnot : base.state ≠ .error := by rw [hchecked.state_eq, hstate]; decide
    rw [readResults_all _ _ _ base hread]
    dsimp only
    rw [if_pos hnot, hchecked.runId_eq]
    have h : Outcome context io task _ :=
      .succeeded hstate base functions more hchecked hcancel hread
    simpa [Turn.keep, CronTask.disconnected, hchecked.runId_eq] using h
  · obtain ⟨fmt, hstop⟩ := readResults_stop task.conn io.leftover io.lastBusy base hbefore hfails
    rw [hresults, hstop]
    dsimp only
    rw [if_neg (by simp [CronTask.fail])]
    have h : Outcome context io task _ :=
      .resultFailed hstate base functions more hchecked hcancel before after result busy hresults
        hbefore hfails fmt
    simpa [Turn.keep, CronTask.disconnected] using h

/-- Reading input after the deadline check. -/
theorem readInput_outcome (hstate : task.state = .running) {base : CronTask}
    {functions : List PqFunction} (hchecked : Checked context.currentTime task base functions) :
    Outcome context io task (readInput base io (uses functions task.conn)) := by
  unfold readInput
  rw [hchecked.conn_eq]
  split
  · have h : Outcome context io task _ := .runs hstate base functions [] hchecked (by decide)
    rwa [List.append_nil] at h
  · split
    · rw [← uses_append]
      exact .unread hstate base functions _ hchecked (by decide) _ _
    · split
      · rw [← uses_append]
        exact .runs hstate base functions _ hchecked (by decide)
      · dsimp only
        rw [← uses_append]
        exact finishRunning_outcome hstate hchecked (by decide)

/-- RUNNING: the cancel request fails, or the run goes on, or its results are read. -/
theorem manageRunning_outcome (hstate : task.state = .running) :
    Outcome context io task (manageRunning task context.currentTime io) := by
  have hconnected : task.state.isConnected = true := by rw [hstate]; rfl
  unfold manageRunning
  split
  · exact .failed hconnected [] (by decide) _ _
  · split
    · exact .failed hconnected _ (by decide) _ _
    · split
      · rename_i hoverdue
        split
        · exact .notCancelled hstate hoverdue _ (by decide) _ _ task.cancelRequested
            task.runDeadline
        · split
          · exact .notCancelled hstate hoverdue _ (by decide) _ _ true 0
          · exact readInput_outcome hstate (.cancelled hoverdue)
      · exact readInput_outcome hstate .within

/-- **Inversion of `ManageCronTask`.** -/
theorem manageCronTask_outcome (context : StepContext) (task : CronTask) (io : Replies) :
    Outcome context io task (manageCronTask context task io) := by
  unfold manageCronTask
  split
  · exact .reset (Or.inl ‹_›)
  · rename_i hjob hstate
    exact .closed _ hstate (Or.inr ⟨hjob, rfl⟩)
  · exact manageWaiting_outcome ‹_›
  · exact manageStart_outcome ‹_› ‹_›
  · exact manageConnecting_outcome ‹_›
  · exact manageSending_outcome ‹_› ‹_›
  · exact manageRunning_outcome ‹_›
  · exact .closed task (by simp_all) (Or.inl ⟨rfl, ‹_›⟩)
  · exact .reset (Or.inr ‹_›)

/-! ### The calls of a turn -/

/-- Calls that hand nothing of a job or a setting to the outside. -/
def Call.isPlain : Call → Bool
  | .insertRun _ _ _ _ _ => false
  | .connectStartParams _ _ => false
  | .sendQuery _ _ _ => false
  | _ => true

/-- A use of a connection hands out nothing. -/
theorem isPlain_uses {functions : List PqFunction} {conn : Option Nat} {call : Call}
    (h : call ∈ uses functions conn) : call.isPlain = true := by
  obtain ⟨f, -, rfl⟩ := List.mem_map.mp h
  rfl

theorem isPlain_fetches {conn : Option Nat} {results : List (QueryResult × Bool)} {call : Call}
    (h : call ∈ fetches conn results) : call.isPlain = true := by
  obtain ⟨f, -, rfl⟩ := List.mem_map.mp h
  rfl

/-- The ERROR step records a run that it finds, and closes a connection that it finds. -/
theorem mem_manageError {base : CronTask} {call : Call}
    (h : call ∈ (manageError base io).calls) :
    call = .finishRun base.runId (if base.timedOut then .timeout else .failed) base.errorMessage
        io.timestamp ∨ call = .finish base.conn := by
  have hmem : call ∈ (if base.runId ≠ 0 then
      [Call.finishRun base.runId (if base.timedOut then .timeout else .failed)
        base.errorMessage io.timestamp] else []) ++
      (if base.conn.isSome then [Call.finish base.conn] else []) := h
  rcases List.mem_append.mp hmem with hrecorded | hclosed
  · split at hrecorded
    · exact Or.inl (List.mem_singleton.mp hrecorded)
    · exact absurd hrecorded (by simp)
  · split at hclosed
    · exact Or.inr (List.mem_singleton.mp hclosed)
    · exact absurd hclosed (by simp)

theorem isPlain_manageError {base : CronTask} {call : Call}
    (h : call ∈ (manageError base io).calls) : call.isPlain = true := by
  rcases mem_manageError h with rfl | rfl <;> rfl

/-- **What a turn hands out.** START hands out what its job says, SENDING the command of its
    job, and every other call is plain. -/
theorem Outcome.mem_calls {turn : Turn} (h : Outcome context io task turn) {call : Call}
    (hcall : call ∈ turn.calls) :
    (∃ job, context.job = some job ∧ task.state = .start ∧ turn.run = context.newRunId ∧
        (call = .insertRun context.newRunId job.jobId job.database job.userName io.timestamp ∨
          ∃ conn, call = .connectStartParams
            (connectParams job context.statementTimeoutMs io.dbEncoding) conn)) ∨
      (∃ job sent, context.job = some job ∧ task.state = .sending ∧
        call = .sendQuery task.conn job.command sent) ∨
      call.isPlain = true := by
  have hplain : ∀ {functions : List PqFunction} {conn : Option Nat}, call ∈ uses functions conn →
      call.isPlain = true := isPlain_uses
  cases h with
  | removed hstate hactive => exact absurd hcall (by simp)
  | idle hstate => exact absurd hcall (by simp [Turn.keep])
  | due hstate hpending => exact absurd hcall (by simp [Turn.keep])
  -- START hands out the row and the parameters of the connection
  | refused job hjob hstate fmt args =>
    rcases List.mem_cons.mp hcall with heq | hcall
    · exact Or.inl ⟨job, hjob, hstate, rfl, Or.inl heq⟩
    · exact Or.inl ⟨job, hjob, hstate, rfl, Or.inr ⟨none, List.mem_singleton.mp hcall⟩⟩
  | unusable job hjob hstate functions hcancel fmt args =>
    rcases List.mem_cons.mp hcall with heq | hcall
    · exact Or.inl ⟨job, hjob, hstate, rfl, Or.inl heq⟩
    · rcases List.mem_cons.mp hcall with heq | hcall
      · exact Or.inl ⟨job, hjob, hstate, rfl, Or.inr ⟨_, heq⟩⟩
      · exact Or.inr (Or.inr (hplain hcall))
  | opened job hjob hstate =>
    rcases List.mem_cons.mp hcall with heq | hcall
    · exact Or.inl ⟨job, hjob, hstate, rfl, Or.inl heq⟩
    · rcases List.mem_cons.mp hcall with heq | hcall
      · exact Or.inl ⟨job, hjob, hstate, rfl, Or.inr ⟨_, heq⟩⟩
      · exact Or.inr (Or.inr (hplain hcall))
  | failed hstate functions hcancel fmt args => exact Or.inr (Or.inr (hplain hcall))
  | waits hstate functions hcancel pollingStatus => exact Or.inr (Or.inr (hplain hcall))
  | connected hstate =>
    refine Or.inr (Or.inr ?_)
    rcases List.mem_append.mp hcall with hcall | hcall
    · exact hplain hcall
    · rw [List.mem_singleton.mp hcall]; rfl
  | sent job hjob hstate =>
    -- SENDING hands out the command
    rcases List.mem_append.mp hcall with hcall | hcall
    · exact Or.inr (Or.inr (hplain hcall))
    · exact Or.inr (Or.inl ⟨job, true, hjob, hstate, List.mem_singleton.mp hcall⟩)
  | unsent job hjob hstate fmt args =>
    rcases List.mem_append.mp hcall with hcall | hcall
    · rcases List.mem_append.mp hcall with hcall | hcall
      · exact Or.inr (Or.inr (hplain hcall))
      · exact Or.inr (Or.inl ⟨job, false, hjob, hstate, List.mem_singleton.mp hcall⟩)
    · exact Or.inr (Or.inr (hplain hcall))
  | notCancelled hstate hoverdue functions hone fmt args cancelRequested runDeadline =>
    exact Or.inr (Or.inr (hplain hcall))
  | runs hstate base functions more hchecked hcancel => exact Or.inr (Or.inr (hplain hcall))
  | unread hstate base functions more hchecked hcancel fmt args =>
    exact Or.inr (Or.inr (hplain hcall))
  | succeeded hstate base functions more hchecked hcancel hread =>
    -- the rest hands out nothing
    refine Or.inr (Or.inr ?_)
    rcases List.mem_append.mp hcall with hcall | hcall
    · rcases List.mem_append.mp hcall with hcall | hcall
      · exact hplain hcall
      · exact isPlain_fetches hcall
    · simp only [List.mem_cons, List.not_mem_nil, or_false] at hcall
      rcases hcall with rfl | rfl | rfl <;> rfl
  | resultFailed hstate base functions more hchecked hcancel before after result busy hresults
      hbefore hfails fmt =>
    refine Or.inr (Or.inr ?_)
    rcases List.mem_append.mp hcall with hcall | hcall
    · rcases List.mem_append.mp hcall with hcall | hcall
      · exact hplain hcall
      · exact isPlain_fetches hcall
    · rw [List.mem_singleton.mp hcall]; rfl
  | closed base hdone hbase => exact Or.inr (Or.inr (isPlain_manageError hcall))
  | reset hstate => exact absurd hcall (by simp [manageDone, Turn.keep])

/-- **How a task gets to CONNECTING or SENDING**: by the START of its run, or it was there
    already, in the same run. -/
theorem Outcome.connecting_cases {turn : Turn} (h : Outcome context io task turn)
    {task' : CronTask} (hkept : turn.fate = .kept task')
    (hstate' : task'.state = .connecting ∨ task'.state = .sending) :
    task'.jobId = task.jobId ∧
      ((task.state = .start ∧ task'.runId = context.newRunId ∧ turn.run = context.newRunId) ∨
        ((task.state = .connecting ∨ task.state = .sending) ∧ task'.runId = task.runId ∧
          turn.run = task.runId)) := by
  cases h with
  | removed hstate hactive => cases hkept
  | idle hstate => cases hkept; rw [hstate] at hstate'; simp at hstate'
  | due hstate hpending => cases hkept; simp at hstate'
  | refused job hjob hstate fmt args => cases hkept; simp [CronTask.fail] at hstate'
  | unusable job hjob hstate functions hcancel fmt args =>
    cases hkept; simp [CronTask.fail] at hstate'
  -- START opens the connection
  | opened job hjob hstate => cases hkept; exact ⟨rfl, Or.inl ⟨hstate, rfl, rfl⟩⟩
  | failed hstate functions hcancel fmt args => cases hkept; simp [CronTask.fail] at hstate'
  | waits hstate functions hcancel pollingStatus =>
    -- or it was opened by the run before
    cases hkept; exact ⟨rfl, Or.inr ⟨hstate, rfl, rfl⟩⟩
  | connected hstate => cases hkept; exact ⟨rfl, Or.inr ⟨Or.inl hstate, rfl, rfl⟩⟩
  | sent job hjob hstate => cases hkept; simp at hstate'
  | unsent job hjob hstate fmt args => cases hkept; simp [CronTask.fail] at hstate'
  | notCancelled hstate hoverdue functions hone fmt args cancelRequested runDeadline =>
    cases hkept; simp [CronTask.fail] at hstate'
  | runs hstate base functions more hchecked hcancel =>
    cases hkept
    rw [hchecked.state_eq, hstate] at hstate'
    simp at hstate'
  | unread hstate base functions more hchecked hcancel fmt args =>
    cases hkept; simp [CronTask.fail] at hstate'
  | succeeded hstate base functions more hchecked hcancel hread => cases hkept; simp at hstate'
  | resultFailed hstate base functions more hchecked hcancel before after result busy hresults
      hbefore hfails fmt =>
    cases hkept; simp [CronTask.fail, CronTask.disconnected] at hstate'
  | closed base hdone hbase =>
    obtain ⟨-, rfl⟩ := manageError_kept hkept
    simp at hstate'
  | reset hstate =>
    unfold manageDone at hkept
    split at hkept <;> (cases hkept; simp [resetCronTaskAfterRun] at hstate')

end NedoCron
