import NedoCron.CronJob
import NedoCron.CronTime

namespace NedoCron

/-!
# nedo_cron — runtime tasks (`cron_task.c`)

The runtime state the worker keeps for a job: where its current run stands, the queue of runs
that are due, the connection and the deadlines.  Counters are unbounded integers: a queue
grows by at most one run for each minute, so the C `int` does not overflow.
-/

/-- `CronTaskState`. -/
inductive CronTaskState where
  | waiting
  | start
  | connecting
  | sending
  | running
  | receiving
  | done
  | error
  deriving DecidableEq

/-- `PostgresPollingStatusType`; `failed` is the 0 that the sources assign. -/
inductive PollingStatus where
  | failed
  | reading
  | writing
  | ok
  | active
  deriving DecidableEq

/-- `CronTask`; a connection is the handle of a `PGconn`, `none` is `NULL`. -/
structure CronTask where
  jobId : Int
  runId : Int
  state : CronTaskState
  pollingStatus : PollingStatus
  pendingRunCount : Int
  startDeadline : Int
  nextRunTime : Int
  runDeadline : Int
  conn : Option Nat
  errorMessage : Option CString
  isActive : Bool
  isSocketReady : Bool
  timedOut : Bool
  cancelRequested : Bool
  deriving DecidableEq

/-- An entry of the task hash table in cleared memory. -/
def clearedEntry : CronTask where
  jobId := 0
  runId := 0
  state := .waiting
  pollingStatus := .failed
  pendingRunCount := 0
  startDeadline := 0
  nextRunTime := 0
  runDeadline := 0
  conn := none
  errorMessage := none
  isActive := false
  isSocketReady := false
  timedOut := false
  cancelRequested := false

/-- `InitCronTask`.  The entry of the hash table is not cleared before, so `polling_status`
    and `startDeadline` keep what the memory of the entry holds. -/
def initCronTask (entry : CronTask) (jobId : Int) : CronTask :=
  { entry with
    runId := 0
    jobId := jobId
    state := .waiting
    pendingRunCount := 0
    conn := none
    isActive := true
    errorMessage := none
    isSocketReady := false
    nextRunTime := 0
    runDeadline := 0
    cancelRequested := false
    timedOut := false }

/-- `ResetCronTaskAfterRun`. -/
def resetCronTaskAfterRun (task : CronTask) : CronTask :=
  { task with
    runId := 0
    state := .waiting
    pollingStatus := .failed
    startDeadline := 0
    conn := none
    errorMessage := none
    isSocketReady := false
    runDeadline := 0
    cancelRequested := false
    timedOut := false }

/-- `StartSecondIntervalTask`: the next run of an `N seconds` job, at most one in the queue. -/
def startSecondIntervalTask (schedule : CronSchedule) (currentTime : Int) (task : CronTask) :
    CronTask :=
  let intervalMs := 1000 * schedule.secondsInterval
  let task :=
    if task.nextRunTime = 0 then
      { task with nextRunTime := timestampTzPlusMilliseconds currentTime intervalMs }
    else task
  if timestampDifferenceExceeds task.nextRunTime currentTime 0 then
    let task :=
      if task.pendingRunCount = 0 then { task with pendingRunCount := task.pendingRunCount + 1 }
      else task
    { task with nextRunTime := timestampTzPlusMilliseconds currentTime intervalMs }
  else task

/-- `getCronTask`: the task of a job, created in the memory `entry` if there is none. -/
def getCronTask (entry : CronTask) (tasks : Table Int CronTask) (jobId : Int) :
    Table Int CronTask :=
  match tasks.lookup jobId with
  | some _ => tasks
  | none => tasks.insert jobId (initCronTask entry jobId)

/-- `SetTaskError`: format the message into a buffer of 1024 bytes and keep a copy. -/
def setTaskError (leftover : CString) (task : CronTask) (fmt : CString) (args : List FmtArg) :
    CronTask :=
  let fmt := if fmt = [] then ascii "unknown error, message text = '\\0'" else fmt
  { task with errorMessage := some (vsnprintf leftover 1024 fmt args) }

end NedoCron
