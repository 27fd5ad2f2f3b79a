import NedoCron.CronTask

namespace NedoCron

/-!
# nedo_cron — one step of a run (`ManageCronTask`)

The state machine of a run.  A step of a task is a pure function of the task, its job, the
settings, the clock and the replies of the functions it calls (`Replies`); it says what
becomes of the task and which SQL functions and libpq functions it has called, in order.

* `manageWaiting` to `manageDone` — the branches of the `switch`, under the state they handle;
* `manageCronTask` — the override for a job that is gone, and the `switch`.

A failing SQL statement raises an ERROR and ends the worker process before anything of the
step takes effect in the database; that is an end of the worker and not a step of the task.
-/

/-! ### Calls and replies -/

/-- `ExecStatusType`. -/
inductive ExecStatus where
  | emptyQuery
  | commandOk
  | tuplesOk
  | copyOut
  | copyIn
  | badResponse
  | nonfatalError
  | fatalError
  | copyBoth
  | singleTuple
  | pipelineSync
  | pipelineAborted
  deriving DecidableEq

/-- A `PGresult`: its status, its SQLSTATE field if there is one, and its error message. -/
structure QueryResult where
  status : ExecStatus
  sqlState : Option CString
  message : CString
  deriving DecidableEq

/-- The libpq functions that are called on an open connection and only report on it. -/
inductive PqFunction where
  | setnonblocking
  | status
  | errorMessage
  | connectPoll
  | backendPID
  | getCancel
  | cancel
  | freeCancel
  | consumeInput
  | isBusy
  | socket
  deriving DecidableEq

/-- The keywords and values given to `PQconnectStartParams`. -/
structure ConnectParams where
  host : CString
  port : CString
  fallbackApplicationName : CString
  clientEncoding : CString
  dbname : CString
  user : CString
  options : CString
  deriving DecidableEq

/-- The `status` column of `job_run_details`, as far as the worker writes it. -/
inductive RunStatus where
  | starting
  | running
  | succeeded
  | failed
  | timeout
  deriving DecidableEq

/-- A call with an effect outside the worker's memory; connections are handles, `none` is
    `NULL`. -/
inductive Call where
  /-- `InsertRunDetailsStart`, returning the run id -/
  | insertRun (runId jobId : Int) (database userName : CString) (startTime : Int)
  /-- `UpdatePID` -/
  | updatePID (runId pid : Int)
  /-- `UpdateRunDetailsFinish` -/
  | finishRun (runId : Int) (status : RunStatus) (message : Option CString) (endTime : Int)
  /-- `PQconnectStartParams`, returning a connection or `NULL` -/
  | connectStartParams (params : ConnectParams) (conn : Option Nat)
  /-- `PQsendQuery` and whether it returned 1 -/
  | sendQuery (conn : Option Nat) (command : CString) (sent : Bool)
  /-- `PQgetResult`, its result or `NULL`, and what `PQisBusy` would have said before it -/
  | getResult (conn : Option Nat) (result : Option QueryResult) (busy : Bool)
  /-- `PQfinish` -/
  | finish (conn : Option Nat)
  /-- any other libpq function -/
  | use (function : PqFunction) (conn : Option Nat)
  deriving DecidableEq

/-- What the functions called during one step return. -/
structure Replies where
  /-- `GetCurrentTimestamp` -/
  timestamp : Int
  /-- `GetDatabaseEncodingName` -/
  dbEncoding : CString
  /-- `PQconnectStartParams` returns a connection -/
  connection : Bool
  /-- `PQsetnonblocking` -/
  setnonblocking : Int
  /-- `PQstatus` is `CONNECTION_BAD` -/
  statusBad : Bool
  /-- `PQerrorMessage` -/
  errorMessage : CString
  /-- `PQconnectPoll` -/
  connectPoll : PollingStatus
  /-- `PQbackendPID` -/
  backendPID : Int
  /-- `PQsendQuery` -/
  sendQuery : Int
  /-- `PQgetCancel` returns an object -/
  getCancel : Bool
  /-- `PQcancel` -/
  cancel : Int
  /-- the error buffer after `PQcancel` -/
  cancelError : CString
  /-- `PQconsumeInput` -/
  consumeInput : Int
  /-- `PQisBusy` -/
  isBusy : Bool
  /-- the results of the query in order, each with what `PQisBusy` would have said before
      it is fetched -/
  results : List (QueryResult × Bool)
  /-- what `PQisBusy` would have said before the final `NULL` is fetched -/
  lastBusy : Bool
  /-- what an undefined conversion of a format leaves in the buffer -/
  leftover : CString

/-! ### Turns -/

/-- What becomes of the task: it stays in the hash table, or it is removed from it. -/
inductive Fate where
  | kept (task : CronTask)
  | removed

/-- One step of a task: the run it worked for, the task's fate and the calls. -/
structure Turn where
  run : Int
  fate : Fate
  calls : List Call

/-- The task stays; the step worked for the run it is in afterwards. -/
def Turn.keep (task : CronTask) (calls : List Call) : Turn := ⟨task.runId, .kept task, calls⟩

/-- `TaskTimeout`, 10 seconds for connecting and sending. -/
def taskTimeout : Int := 10000

/-- `maxPendingTasks`. -/
def maxPendingTasks : Int := 20

/-- The error exit most branches take: set the message, the state and the polling status. -/
def CronTask.fail (task : CronTask) (leftover fmt : CString) (args : List FmtArg) : CronTask :=
  { setTaskError leftover task fmt args with state := .error, pollingStatus := .failed }

/-- `PQstatus(connection) == CONNECTION_BAD`; it is for `NULL`. -/
def connectionBad (conn : Option Nat) (io : Replies) : Bool := conn.isNone || io.statusBad

/-- `PQerrorMessage`, with its text for `NULL`. -/
def pqErrorMessage (conn : Option Nat) (io : Replies) : CString :=
  if conn.isNone then ascii "connection pointer is NULL\n" else io.errorMessage

/-- Calls of libpq functions on one connection. -/
def uses (functions : List PqFunction) (conn : Option Nat) : List Call :=
  functions.map fun f => .use f conn

/-! ### WAITING and START -/

/-- `case CRON_TASK_WAITING`. -/
def manageWaiting (task : CronTask) : Turn :=
  if task.isActive = false then ⟨task.runId, .removed, []⟩
  else if task.pendingRunCount = 0 then .keep task []
  else .keep { task with pendingRunCount := task.pendingRunCount - 1, state := .start } []

/-- The `options` parameter: the limit the server is asked to keep. -/
def optionsString (statementTimeoutMs : Int) : CString :=
  vsnprintf [] 64 (ascii "-c statement_timeout=%d") [.int statementTimeoutMs]

/-- The connection parameters of a job. -/
def connectParams (job : CronJob) (statementTimeoutMs : Int) (dbEncoding : CString) :
    ConnectParams where
  host := job.nodeName
  port := vsnprintf [] 12 (ascii "%d") [.int job.nodePort]
  fallbackApplicationName := ascii "nedo_cron"
  clientEncoding := dbEncoding
  dbname := job.database
  user := job.userName
  options := optionsString statementTimeoutMs

/-- `case CRON_TASK_START`; `runId` is the id of the inserted row and `conn` the handle of a
    new connection. -/
def manageStart (task : CronTask) (job : CronJob) (statementTimeoutMs currentTime runId : Int)
    (conn : Nat) (io : Replies) : Turn :=
  let insert : Call := .insertRun runId job.jobId job.database job.userName io.timestamp
  let params := connectParams job statementTimeoutMs io.dbEncoding
  -- the row is inserted before the connection is tried
  let task := { task with runId := runId }
  if io.connection = false then
    .keep (task.fail io.leftover (ascii "PQconnectStartParams returned NULL") [])
      [insert, .connectStartParams params none]
  else
    let task := { task with conn := some conn }
    let opened := [insert, .connectStartParams params (some conn)]
    if io.setnonblocking ≠ 0 then
      .keep (task.fail io.leftover io.errorMessage [])
        (opened ++ uses [.setnonblocking, .errorMessage] (some conn))
    else if connectionBad (some conn) io then
      .keep (task.fail io.leftover io.errorMessage [])
        (opened ++ uses [.setnonblocking, .status, .errorMessage] (some conn))
    else
      .keep
        { task with
          -- the start deadline covers CONNECTING and SENDING
          startDeadline := timestampTzPlusMilliseconds currentTime taskTimeout
          pollingStatus := .writing
          state := .connecting }
        (opened ++ uses [.setnonblocking, .status] (some conn))

/-! ### CONNECTING and SENDING -/

/-- `case CRON_TASK_CONNECTING`. -/
def manageConnecting (task : CronTask) (currentTime : Int) (io : Replies) : Turn :=
  if task.isActive = false then
    .keep (task.fail io.leftover (ascii "job has been removed") []) []
  else if timestampDifferenceExceeds task.startDeadline currentTime 0 then
    .keep (task.fail io.leftover (ascii "timeout reached, job_id=%ld") [.int task.jobId]) []
  else if connectionBad task.conn io then
    .keep (task.fail io.leftover (pqErrorMessage task.conn io) [])
      (uses [.status, .errorMessage] task.conn)
  else if task.isSocketReady = false then .keep task (uses [.status] task.conn)
  else match io.connectPoll with
    | .ok =>
      .keep { task with pollingStatus := .writing, state := .sending }
        (uses [.status, .connectPoll, .backendPID] task.conn ++
          [.updatePID task.runId io.backendPID])
    | .failed =>
      .keep (task.fail io.leftover (pqErrorMessage task.conn io) [])
        (uses [.status, .connectPoll, .errorMessage] task.conn)
    | pollingStatus =>
      .keep { task with pollingStatus := pollingStatus } (uses [.status, .connectPoll] task.conn)

/-- `case CRON_TASK_SENDING`. -/
def manageSending (task : CronTask) (job : CronJob) (statementTimeoutMs currentTime : Int)
    (io : Replies) : Turn :=
  if task.isActive = false then
    .keep (task.fail io.leftover (ascii "job has been removed") []) []
  else if timestampDifferenceExceeds task.startDeadline currentTime 0 then
    .keep (task.fail io.leftover (ascii "timeout reached, job_id=%ld") [.int task.jobId]) []
  else if connectionBad task.conn io then
    .keep (task.fail io.leftover (pqErrorMessage task.conn io) [])
      (uses [.status, .errorMessage] task.conn)
  else if task.isSocketReady = false then .keep task (uses [.status] task.conn)
  else if io.sendQuery = 1 then
    .keep
      { task with
        pollingStatus := .reading
        state := .running
        startDeadline := 0
        runDeadline := timestampTzPlusMilliseconds currentTime statementTimeoutMs
        cancelRequested := false
        timedOut := false }
      (uses [.status] task.conn ++ [.sendQuery task.conn job.command true])
  else
    .keep (task.fail io.leftover (pqErrorMessage task.conn io) [])
      (uses [.status] task.conn ++ [.sendQuery task.conn job.command false] ++
        uses [.errorMessage] task.conn)

/-! ### RUNNING -/

/-- The limit of a running query has passed, and no cancel was requested yet. -/
def CronTask.overdue (task : CronTask) (currentTime : Int) : Bool :=
  timestampDifferenceExceeds task.runDeadline currentTime 0 && task.runDeadline != 0 &&
    !task.cancelRequested

/-- The SQLSTATE of a cancelled query. -/
def queryCanceled : CString := ascii "57014"

/-- `PGRES_BAD_RESPONSE`, `PGRES_FATAL_ERROR` and `PGRES_NONFATAL_ERROR`. -/
def ExecStatus.isError (status : ExecStatus) : Bool :=
  status = .badResponse || status = .fatalError || status = .nonfatalError

/-- `PGRES_COPY_BOTH`, `PGRES_COPY_IN` and `PGRES_COPY_OUT`. -/
def ExecStatus.isCopy (status : ExecStatus) : Bool :=
  status = .copyBoth || status = .copyIn || status = .copyOut

/-- The loop over the results, up to `NULL` or the first result that fails the run. -/
def readResults (conn : Option Nat) (leftover : CString) (lastBusy : Bool) :
    CronTask → List (QueryResult × Bool) → CronTask × List Call
  | task, [] => (task, [.getResult conn none lastBusy])
  | task, (result, busy) :: results =>
    let call : Call := .getResult conn (some result) busy
    if result.status.isError then
      let task :=
        if result.sqlState = some queryCanceled then { task with timedOut := true } else task
      -- the message is the format, and the results after it are not fetched
      (task.fail leftover result.message [], [call])
    else if result.status.isCopy then
      (task.fail leftover (ascii "COPY not supported") [], [call])
    else
      let rest := readResults conn leftover lastBusy task results
      (rest.1, call :: rest.2)

/-- Reading results to their end, closing the connection and recording success. -/
def finishRunning (task : CronTask) (io : Replies) : Turn :=
  let read := readResults task.conn io.leftover io.lastBusy task io.results
  let calls := read.2 ++ [.finish task.conn]
  let task : CronTask :=
    { read.1 with conn := none, pollingStatus := .failed, isSocketReady := false }
  -- a failed result leaves the run to the ERROR step, but the connection is closed here
  if task.state ≠ .error then
    .keep { task with state := .done }
      (calls ++ [.finishRun task.runId .succeeded (some (ascii "OK")) io.timestamp])
  else .keep task calls

/-- The part of `case CRON_TASK_RUNNING` after the deadline check; `calls` is what was called
    before. -/
def readInput (task : CronTask) (io : Replies) (calls : List Call) : Turn :=
  if task.isSocketReady = false then .keep task calls
  else if io.consumeInput ≠ 1 then
    .keep (task.fail io.leftover (pqErrorMessage task.conn io) [])
      (calls ++ uses [.consumeInput, .errorMessage] task.conn)
  else if io.isBusy then .keep task (calls ++ uses [.consumeInput, .isBusy] task.conn)
  else
    let turn := finishRunning task io
    { turn with calls := calls ++ uses [.consumeInput, .isBusy] task.conn ++ turn.calls }

/-- `case CRON_TASK_RUNNING`. -/
def manageRunning (task : CronTask) (currentTime : Int) (io : Replies) : Turn :=
  if task.isActive = false then
    .keep (task.fail io.leftover (ascii "job has been removed") []) []
  else if connectionBad task.conn io then
    .keep (task.fail io.leftover (pqErrorMessage task.conn io) [])
      (uses [.status, .errorMessage] task.conn)
  else if task.overdue currentTime then
    -- without a cancel object the run fails, and `cancelRequested` stays unset
    if io.getCancel = false then
      .keep
        { task.fail io.leftover
            (ascii "could not cancel timed out job, job_id=%ld: PQgetCancel returned NULL")
            [.int task.jobId] with timedOut := true }
        (uses [.status, .getCancel] task.conn)
    else if io.cancel = 0 then
      .keep
        { task.fail io.leftover (ascii "could not cancel timed out job, job_id=%ld : %s")
            [.int task.jobId, .str io.cancelError] with
          cancelRequested := true
          timedOut := true
          runDeadline := 0 }
        (uses [.status, .getCancel, .cancel, .freeCancel] task.conn)
    else
      readInput
        { task with
          cancelRequested := true
          timedOut := true
          runDeadline := 0
          pollingStatus := .reading }
        io (uses [.status, .getCancel, .cancel, .freeCancel] task.conn)
  else readInput task io (uses [.status] task.conn)

/-! ### ERROR and DONE -/

/-- `case CRON_TASK_ERROR`. -/
def manageError (task : CronTask) (io : Replies) : Turn :=
  let recorded : List Call :=
    if task.runId ≠ 0 then
      [.finishRun task.runId (if task.timedOut then .timeout else .failed) task.errorMessage
        io.timestamp]
    else []
  let closed : List Call := if task.conn.isSome then [.finish task.conn] else []
  let fate : Fate :=
    -- `pendingRunCount` and `timedOut` are left to the DONE step
    if task.isActive = false then .removed
    else .kept
      { task with
        runId := 0
        conn := none
        state := .done
        pollingStatus := .failed
        startDeadline := 0
        runDeadline := 0
        cancelRequested := false
        isSocketReady := false }
  ⟨task.runId, fate, recorded ++ closed⟩

/-- `case CRON_TASK_DONE` and `default`: shorten the queue and start over. -/
def manageDone (task : CronTask) : Turn :=
  let task :=
    if task.pendingRunCount > maxPendingTasks then
      { task with pendingRunCount := maxPendingTasks }
    else task
  .keep (resetCronTaskAfterRun task) []

/-! ### The step -/

/-- What a step reads besides the task and the replies. -/
structure StepContext where
  job : Option CronJob
  statementTimeoutMs : Int
  currentTime : Int
  /-- the id the sequence gives to the next row of `job_run_details` -/
  newRunId : Int
  /-- the handle the next connection gets -/
  newConn : Nat

/-- `ManageCronTask`. -/
def manageCronTask (context : StepContext) (task : CronTask) (io : Replies) : Turn :=
  match context.job, task.state with
  | _, .done => manageDone task
  | none, _ =>
    -- the job is gone: the task ends through the error branch in the same call
    manageError
      { setTaskError io.leftover task (ascii "job metadata not found") [] with state := .error } io
  | some _, .waiting => manageWaiting task
  | some job, .start =>
    manageStart task job context.statementTimeoutMs context.currentTime context.newRunId
      context.newConn io
  | some _, .connecting => manageConnecting task context.currentTime io
  | some job, .sending =>
    manageSending task job context.statementTimeoutMs context.currentTime io
  | some _, .running => manageRunning task context.currentTime io
  | some _, .error => manageError task io
  | some _, .receiving => manageDone task

end NedoCron
