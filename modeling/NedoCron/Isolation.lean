import NedoCron.Removal
import Mathlib.Data.Option.Basic

namespace NedoCron

/-!
# nedo_cron — runs of a task are isolated from each other

A task lives in the hash table from run to run, and its entry is reused memory.  What a run does
is a function of what it meets from its START on: of the jobs, settings and clock readings of its
steps, and of what libpq answers.

* `CronTask.Clean` — a task before its run, in every state reached;
* `Facing`, `World.faced`, `World.observed` — what a run meets, and what can be seen of it;
* `Twin` — two tasks that no step can tell apart;
* `CronTask.play` — a run on a task of its own, with a run id and a connection of its own;
* `runs_isolated` — every run of the worker is that run.
-/

/-! ### Tasks before a run -/

/-- Nothing of an earlier run is left. -/
structure CronTask.Clean (task : CronTask) : Prop where
  runId : task.runId = 0
  conn : task.conn = none
  errorMessage : task.errorMessage = none
  timedOut : task.timedOut = false
  cancelRequested : task.cancelRequested = false
  runDeadline : task.runDeadline = 0
  isSocketReady : task.isSocketReady = false

/-- A task before its run is clean. -/
def CronTask.CleanIdle (task : CronTask) : Prop :=
  task.state = .waiting ∨ task.state = .start → task.Clean

/-- Nothing is asked of a task after START. -/
theorem cleanIdle_of_busy {task : CronTask} (hwaiting : task.state ≠ .waiting)
    (hstart : task.state ≠ .start) : task.CleanIdle :=
  fun h => absurd h (not_or.mpr ⟨hwaiting, hstart⟩)

theorem cleanIdle_of_connected {task : CronTask} (hstate : task.state.isConnected = true) :
    task.CleanIdle := by
  refine cleanIdle_of_busy ?_ ?_ <;>
    (intro heq; rw [heq] at hstate; exact absurd hstate (by decide))

/-- A change of the queue, the next time or the active flag leaves a task clean. -/
theorem CronTask.CleanIdle.congr {task : CronTask} (h : task.CleanIdle)
    (pendingRunCount nextRunTime : Int) (isActive : Bool) :
    CronTask.CleanIdle { task with
      pendingRunCount := pendingRunCount
      nextRunTime := nextRunTime
      isActive := isActive } := by
  intro hstate
  obtain ⟨hrunId, hconn, herror, htimedOut, hcancel, hdeadline, hready⟩ := h hstate
  exact ⟨hrunId, hconn, herror, htimedOut, hcancel, hdeadline, hready⟩

/-- A turn leads to WAITING or START out of such a state, or through the reset after DONE. -/
theorem Outcome.cleanIdle {context : StepContext} {io : Replies} {task : CronTask} {turn : Turn}
    (h : Outcome context io task turn) (hclean : task.CleanIdle) {task' : CronTask}
    (hkept : turn.fate = .kept task') : task'.CleanIdle := by
  cases h with
  | removed hstate hactive => cases hkept
  | idle hstate =>
    cases hkept
    exact hclean
  -- START is entered from WAITING only, and takes its fields over
  | due hstate hpending =>
    cases hkept
    intro
    obtain ⟨hrunId, hconn, herror, htimedOut, hcancel, hdeadline, hready⟩ := hclean (Or.inl hstate)
    exact ⟨hrunId, hconn, herror, htimedOut, hcancel, hdeadline, hready⟩
  | waits hstate functions hcancel pollingStatus =>
    cases hkept
    rcases hstate with heq | heq <;> exact cleanIdle_of_connected (by rw [heq]; rfl)
  | runs hstate base functions more hchecked hcancel =>
    cases hkept
    exact cleanIdle_of_connected (by rw [hchecked.state_eq, hstate]; rfl)
  | closed base hdone hbase =>
    obtain ⟨-, rfl⟩ := manageError_kept hkept
    exact cleanIdle_of_busy (by simp) (by simp)
  | reset hstate =>
    unfold manageDone at hkept
    cases hkept
    intro
    exact ⟨rfl, rfl, rfl, rfl, rfl, rfl, rfl⟩
  | _ =>
    cases hkept
    exact cleanIdle_of_busy (by simp [CronTask.fail, CronTask.disconnected])
      (by simp [CronTask.fail, CronTask.disconnected])

/-- A wait finds no socket of a task before its run. -/
theorem awaitTask_idle (io : WaitReplies) (k : Int) {task : CronTask}
    (hneeds : taskNeedsSocketWait task = false) : awaitTask io k task = task := by
  have hregister : registerTask io task = (task, false, []) := if_pos (Or.inl hneeds)
  unfold awaitTask
  rw [hregister]
  rfl

/-- **A step** keeps the tasks before their runs clean. -/
theorem cleanIdle_step {w : World} (h : ∀ k task, w.tasks.lookup k = some task → task.CleanIdle)
    (l : Label) (k : Int) (task' : CronTask) (hlookup : (w.step l).tasks.lookup k = some task') :
    task'.CleanIdle := by
  rcases task_step hlookup with ⟨task, hold, hstep⟩ | ⟨source, currentTime, -, -, rfl⟩
  · have hclean := h k task hold
    have hunready : task.unready.CleanIdle := by
      intro hstate
      obtain ⟨hrunId, hconn, herror, htimedOut, hcancel, hdeadline, -⟩ := hclean hstate
      exact ⟨hrunId, hconn, herror, htimedOut, hcancel, hdeadline, rfl⟩
    cases hstep with
    | untouched l => exact hclean
    | marked source currentTime => exact hclean.congr task.pendingRunCount task.nextRunTime _
    | scheduled currentTime =>
      obtain ⟨pending, next, heq⟩ := schedulePendingTask_eq w.jobs
        (initLastMinute w.lastMinute currentTime) currentTime task
      rw [heq]
      exact hclean.congr pending next task.isActive
    | unready io => exact hunready
    | awaited io =>
      by_cases hneeds : taskNeedsSocketWait task.unready = false
      · rw [awaitTask_idle io k hneeds]
        exact hunready
      · -- a socket that is looked at belongs to a run under way
        have hconnected : task.state.isConnected = true := Bool.not_eq_false _ |>.mp hneeds
        rcases awaitTask_cases io k task.unready with ⟨ready, heq⟩ | ⟨-, fmt, args, status, heq⟩
        · rw [heq]
          exact cleanIdle_of_connected hconnected
        · rw [heq]
          exact cleanIdle_of_busy (by simp [CronTask.fail]) (by simp [CronTask.fail])
    | turned currentTime gap io task' hkept =>
      exact (turn_outcome w task currentTime gap io).cleanIdle hclean hkept
  -- a new task: what `InitCronTask` leaves unset is not among these fields
  · exact fun _ => ⟨rfl, rfl, rfl, rfl, rfl, rfl, rfl⟩

/-- Every task before its run is clean. -/
theorem reached_clean (statementTimeout : StatementTimeout) (history : History)
    (ls : List Label) : ∀ k task,
    (Machine.run World.step (World.launch statementTimeout history) ls).tasks.lookup k =
      some task → task.CleanIdle :=
  Machine.run_induction
    (P := fun w : World => ∀ k task, w.tasks.lookup k = some task → task.CleanIdle)
    (fun _ l h => cleanIdle_step h l) ls fun k task h => absurd h (by simp [World.launch])

/-! ### What a run meets, and what is seen of it -/

deriving instance DecidableEq for Replies

/-- What a wait finds at the socket of a task. -/
structure SocketReply where
  leftover : CString
  /-- `PQsocket` -/
  socket : Int
  /-- the socket is ready when the wait ends -/
  ready : Bool
  deriving DecidableEq

/-- What a step shows to a task. -/
inductive Facing where
  /-- `ManageCronTask`: the job, the setting, the clock reading and the replies -/
  | turn (job : Option CronJob) (statementTimeoutMs currentTime : Int) (io : Replies)
  /-- `WaitForEvent`; `none` if it does not look at the socket of the task -/
  | wait (looked : Option SocketReply)
  deriving DecidableEq

/-- What a step shows to the task of a job. -/
def World.facing (w : World) (k : Int) (task : CronTask) : Label → Option Facing
  | .manage jobId currentTime _ io =>
    if jobId = k then
      some (.turn (getCronJob w.jobs task.jobId) w.statementTimeout.ms currentTime io)
    else none
  | .wait io =>
    if w.waitTimeout io = 0 ∨ taskNeedsSocketWait task = false then some (.wait none)
    else some (.wait (some ⟨io.leftover, (task.conn.map io.socket).getD 0, io.ready k⟩))
  | _ => none

/-- A call without the id of its run and the handle of its connection. -/
def Call.anonymous : Call → Call
  | .insertRun _ jobId database userName startTime => .insertRun 0 jobId database userName startTime
  | .updatePID _ pid => .updatePID 0 pid
  | .finishRun _ status message endTime => .finishRun 0 status message endTime
  | .connectStartParams params conn => .connectStartParams params (conn.map fun _ => 0)
  | .sendQuery conn command sent => .sendQuery (conn.map fun _ => 0) command sent
  | .getResult conn result busy => .getResult (conn.map fun _ => 0) result busy
  | .finish conn => .finish (conn.map fun _ => 0)
  | .use function conn => .use function (conn.map fun _ => 0)

/-- The deadline of a run that `CalculateWaitTimeout` heeds. -/
def CronTask.deadline (task : CronTask) : Option Int :=
  if (task.state = .connecting ∨ task.state = .sending) ∧ task.startDeadline ≠ 0 then
    some task.startDeadline
  else if task.state = .running ∧ task.runDeadline ≠ 0 ∧ task.cancelRequested = false then
    some task.runDeadline
  else none

/-- Of a task, the loop of `CalculateWaitTimeout` heeds the next time and the deadline. -/
theorem nextTaskEvent_eq (jobs : Table Int CronJob) (task : CronTask) (nextEventTime : Int) :
    nextTaskEvent jobs task nextEventTime =
      let next :=
        if (getCronJob jobs task.jobId).any (fun job => job.schedule.seconds) ∧
            task.nextRunTime ≠ 0
        then earlierEvent task.nextRunTime nextEventTime else nextEventTime
      (task.deadline.map fun deadline => earlierEvent deadline next).getD next := by
  unfold nextTaskEvent CronTask.deadline
  dsimp only
  by_cases hstart : (task.state = .connecting ∨ task.state = .sending) ∧ task.startDeadline ≠ 0
  · have hrunning : task.state ≠ .running := by
      rcases hstart.1 with hstate | hstate <;> (rw [hstate]; decide)
    rw [if_pos hstart, if_pos hstart, if_neg fun hall => hrunning hall.1]
    rfl
  · rw [if_neg hstart, if_neg hstart]
    split <;> rfl

/-- What is seen of a step of a run: the calls, the state it leads to, unless the task is
    removed, and the deadline the next wait heeds. -/
structure Observation where
  calls : List Call
  state : Option CronTaskState
  deadline : Option Int

/-- What is seen of a task after some calls. -/
def observe (calls : List Call) (task : Option CronTask) : Observation where
  calls := calls.map Call.anonymous
  state := task.map CronTask.state
  deadline := task.bind CronTask.deadline

/-- The calls of `ManageCronTask` on a task. -/
def World.turnCalls (w : World) (task : CronTask) : Label → List Call
  | .manage _ currentTime gap io => (w.turn task currentTime gap io).calls
  | _ => []

/-- What a run meets, up to its end. -/
def World.faced (k : Int) : World → List Label → List Facing
  | _, [] => []
  | w, l :: ls =>
    match w.tasks.lookup k with
    | none => []
    | some task =>
      if task.state = .waiting then []
      else (w.facing k task l).toList ++ World.faced k (w.step l) ls

/-- What is seen of a run, up to its end. -/
def World.observed (k : Int) : World → List Label → List Observation
  | _, [] => []
  | w, l :: ls =>
    match w.tasks.lookup k with
    | none => []
    | some task =>
      if task.state = .waiting then []
      else
        ((w.facing k task l).map fun _ =>
          observe (w.turnCalls task l) ((w.step l).tasks.lookup k)).toList ++
        World.observed k (w.step l) ls

/-! ### A run on its own -/

/-- A step of a task that is in the table of no worker. -/
def CronTask.meet (task : CronTask) : Facing → Option CronTask × List Call
  | .turn job statementTimeoutMs currentTime io =>
    let turn := manageCronTask ⟨job, statementTimeoutMs, currentTime, 1, 0⟩
      { task with isActive := job.isSome } io
    (turn.fate.task, turn.calls)
  | .wait none => (some task.unready, [])
  | .wait (some reply) =>
    -- one socket is all that the wait looks at for this task
    (some (awaitTask ⟨0, fun _ => reply.socket, fun _ => reply.ready, reply.leftover⟩ task.jobId
      task.unready), [])

/-- What is seen of a task that meets these steps, up to the end of its run. -/
def CronTask.play : Option CronTask → List Facing → List Observation
  | some task, facing :: rest =>
    if task.state = .waiting then []
    else
      observe (task.meet facing).2 (task.meet facing).1 :: CronTask.play (task.meet facing).1 rest
  | _, _ => []

/-- A new task at the start of a run. -/
def startedTask (k : Int) : CronTask :=
  { initCronTask clearedEntry k with state := .start }

/-! ### Twins -/

/-- Two tasks that no step of a run can tell apart: they differ in the id of the run, the handle
    of the connection, the queue and the next time, and in fields that are set before they are
    read. -/
structure Twin (task task' : CronTask) : Prop where
  jobId : task'.jobId = task.jobId
  state : task'.state = task.state
  runId : task'.runId = 0 ↔ task.runId = 0
  conn : task'.conn.isSome = task.conn.isSome
  errorMessage : task'.errorMessage = task.errorMessage
  timedOut : task'.timedOut = task.timedOut
  cancelRequested : task'.cancelRequested = task.cancelRequested
  runDeadline : task'.runDeadline = task.runDeadline
  isSocketReady : task'.isSocketReady = task.isSocketReady
  -- written in START, and read in these two states only
  startDeadline : task.state = .connecting ∨ task.state = .sending →
    task'.startDeadline = task.startDeadline
  pollingStatus : task.state.isConnected = true → task'.pollingStatus = task.pollingStatus

/-- A clean task in START is the twin of a new one. -/
theorem twin_startedTask {k : Int} {task : CronTask} (hkeyed : task.jobId = k)
    (hstate : task.state = .start) (hclean : task.Clean) : Twin (startedTask k) task where
  jobId := hkeyed
  state := hstate
  runId := iff_of_true hclean.runId rfl
  conn := by rw [hclean.conn]; rfl
  errorMessage := hclean.errorMessage
  timedOut := hclean.timedOut
  cancelRequested := hclean.cancelRequested
  runDeadline := hclean.runDeadline
  isSocketReady := hclean.isSocketReady
  startDeadline h := absurd h (by simp [startedTask])
  pollingStatus h := absurd h (by simp [startedTask, CronTaskState.isConnected])

/-- Twins in an error have only their messages to agree on. -/
theorem Twin.fail {task task' : CronTask} (h : Twin task task') (leftover fmt : CString)
    (args : List FmtArg) : Twin (task.fail leftover fmt args) (task'.fail leftover fmt args) :=
  { h with
    state := rfl
    errorMessage := rfl
    startDeadline := fun hstate => absurd hstate (by simp [CronTask.fail])
    pollingStatus := fun _ => rfl }

/-- Twins are twins without the flag of the socket. -/
theorem Twin.unready {task task' : CronTask} (h : Twin task task') :
    Twin task.unready task'.unready :=
  { h with isSocketReady := rfl }

/-- Twins have the same deadline. -/
theorem Twin.deadline {task task' : CronTask} (h : Twin task task') :
    task'.deadline = task.deadline := by
  unfold CronTask.deadline
  rw [h.state, h.runDeadline, h.cancelRequested]
  by_cases hstate : task.state = .connecting ∨ task.state = .sending
  · rw [h.startDeadline hstate]
  · have hnot : ∀ d : Int,
        ¬((task.state = .connecting ∨ task.state = .sending) ∧ d ≠ 0) :=
      fun d hboth => hstate hboth.1
    rw [if_neg (hnot _), if_neg (hnot _)]

/-- Turns of twins that no one can tell apart. -/
structure Alike (turn turn' : Turn) : Prop where
  task : Option.Rel Twin turn.fate.task turn'.fate.task
  calls : turn'.calls.map Call.anonymous = turn.calls.map Call.anonymous

/-- Twins that are kept after calls that look the same. -/
theorem Twin.keep {task task' : CronTask} {calls calls' : List Call} (h : Twin task task')
    (hcalls : calls'.map Call.anonymous = calls.map Call.anonymous) :
    Alike (.keep task calls) (.keep task' calls') :=
  ⟨Option.Rel.some h, hcalls⟩

theorem anonymous_conn {conn conn' : Option Nat} (h : conn'.isSome = conn.isSome) :
    (conn'.map fun _ => 0) = conn.map fun _ => (0 : Nat) := by
  cases conn <;> cases conn' <;> first | rfl | exact absurd h (by simp)

/-- Uses of two handles look the same. -/
theorem anonymous_uses {conn conn' : Option Nat} (h : conn'.isSome = conn.isSome)
    (functions : List PqFunction) :
    (uses functions conn').map Call.anonymous = (uses functions conn).map Call.anonymous := by
  unfold uses
  rw [List.map_map, List.map_map]
  refine List.map_congr_left fun f _ => ?_
  show Call.use f (conn'.map fun _ => 0) = Call.use f (conn.map fun _ => 0)
  rw [anonymous_conn h]

theorem connectionBad_congr {conn conn' : Option Nat} (h : conn'.isSome = conn.isSome)
    (io : Replies) : connectionBad conn' io = connectionBad conn io := by
  rw [connectionBad, connectionBad, ← Option.not_isSome, ← Option.not_isSome, h]

theorem pqErrorMessage_congr {conn conn' : Option Nat} (h : conn'.isSome = conn.isSome)
    (io : Replies) : pqErrorMessage conn' io = pqErrorMessage conn io := by
  rw [pqErrorMessage, pqErrorMessage, ← Option.not_isSome, ← Option.not_isSome, h]

/-! ### The branches -/

/-- Twins take the same branch. -/
theorem alike_ite {c c' : Prop} [Decidable c] [Decidable c'] {turn turn' other other' : Turn}
    (hsame : c' ↔ c) (hthen : Alike turn turn') (helse : Alike other other') :
    Alike (if c then turn else other) (if c' then turn' else other') := by
  by_cases hc : c
  · rw [if_pos hc, if_pos (hsame.mpr hc)]
    exact hthen
  · rw [if_neg hc, if_neg fun hc' => hc (hsame.mp hc')]
    exact helse

section Branches

variable {task task' : CronTask} (h : Twin task task') (hactive : task'.isActive = task.isActive)
include h

/-- The error exit of a branch. -/
theorem Twin.fail_alike (leftover fmt : CString) (args : List FmtArg)
    (functions : List PqFunction) :
    Alike (.keep (task.fail leftover fmt args) (uses functions task.conn))
      (.keep (task'.fail leftover fmt args) (uses functions task'.conn)) :=
  (h.fail _ _ _).keep (anonymous_uses h.conn functions)

/-- The exit of a branch with the text of libpq. -/
theorem Twin.fail_message_alike (io : Replies) (functions : List PqFunction) :
    Alike
      (.keep (task.fail io.leftover (pqErrorMessage task.conn io) []) (uses functions task.conn))
      (.keep (task'.fail io.leftover (pqErrorMessage task'.conn io) [])
        (uses functions task'.conn)) := by
  rw [pqErrorMessage_congr h.conn]
  exact h.fail_alike _ _ _ functions

/-- START of twins. -/
theorem manageStart_alike (job : CronJob) (statementTimeoutMs currentTime : Int)
    {runId runId' : Int} (hnew : runId ≠ 0) (hnew' : runId' ≠ 0) (conn conn' : Nat) (io : Replies) :
    Alike (manageStart task job statementTimeoutMs currentTime runId conn io)
      (manageStart task' job statementTimeoutMs currentTime runId' conn' io) := by
  have hrun : Twin { task with runId := runId } { task' with runId := runId' } :=
    { h with runId := iff_of_false hnew' hnew }
  have hopen : Twin { task with runId := runId, conn := some conn }
      { task' with runId := runId', conn := some conn' } :=
    { h with runId := iff_of_false hnew' hnew, conn := rfl }
  -- the new handle is not `NULL`, whatever its number
  have hbad : connectionBad (some conn') io = connectionBad (some conn) io :=
    connectionBad_congr rfl io
  unfold manageStart
  dsimp only
  refine alike_ite Iff.rfl ((hrun.fail _ _ _).keep rfl) ?_
  refine alike_ite Iff.rfl ((hopen.fail _ _ _).keep rfl) ?_
  refine alike_ite (by rw [hbad]) ((hopen.fail _ _ _).keep rfl) ?_
  refine Twin.keep ?_ rfl
  exact { hopen with state := rfl, startDeadline := fun _ => rfl, pollingStatus := fun _ => rfl }

include hactive

/-- CONNECTING of twins. -/
theorem manageConnecting_alike (hstate : task.state = .connecting) (currentTime : Int)
    (io : Replies) :
    Alike (manageConnecting task currentTime io) (manageConnecting task' currentTime io) := by
  have hdeadline := h.startDeadline (Or.inl hstate)
  unfold manageConnecting
  refine alike_ite (by rw [hactive]) (h.fail_alike _ _ _ []) ?_
  refine alike_ite (by rw [hdeadline]) ?_ ?_
  · rw [h.jobId]
    exact h.fail_alike _ _ _ []
  refine alike_ite (by rw [connectionBad_congr h.conn]) (h.fail_message_alike io _) ?_
  refine alike_ite (by rw [h.isSocketReady]) (h.keep (anonymous_uses h.conn _)) ?_
  cases io.connectPoll with
  | ok =>
    refine Twin.keep ?_ ?_
    · exact { h with
        state := rfl
        startDeadline := fun _ => hdeadline
        pollingStatus := fun _ => rfl }
    · rw [List.map_append, List.map_append, anonymous_uses h.conn]
      rfl
  | failed => exact h.fail_message_alike io _
  | _ => exact Twin.keep { h with pollingStatus := fun _ => rfl } (anonymous_uses h.conn _)

/-- SENDING of twins. -/
theorem manageSending_alike (hstate : task.state = .sending) (job : CronJob)
    (statementTimeoutMs currentTime : Int) (io : Replies) :
    Alike (manageSending task job statementTimeoutMs currentTime io)
      (manageSending task' job statementTimeoutMs currentTime io) := by
  have hdeadline := h.startDeadline (Or.inr hstate)
  have hsend : ∀ sent, Call.anonymous (.sendQuery task'.conn job.command sent) =
      Call.anonymous (.sendQuery task.conn job.command sent) := by
    intro sent
    rw [Call.anonymous, anonymous_conn h.conn]
    rfl
  unfold manageSending
  -- the branches of SENDING are taken together
  refine alike_ite (by rw [hactive]) (h.fail_alike _ _ _ []) ?_
  refine alike_ite (by rw [hdeadline]) ?_ ?_
  · rw [h.jobId]
    exact h.fail_alike _ _ _ []
  refine alike_ite (by rw [connectionBad_congr h.conn]) (h.fail_message_alike io _) ?_
  refine alike_ite (by rw [h.isSocketReady]) (h.keep (anonymous_uses h.conn _)) ?_
  refine alike_ite Iff.rfl ?_ ?_
  · refine Twin.keep ?_ ?_
    · -- the run enters RUNNING, which sets the fields that may differ
      exact { h with
        state := rfl
        timedOut := rfl
        cancelRequested := rfl
        runDeadline := rfl
        startDeadline := fun _ => rfl
        pollingStatus := fun _ => rfl }
    · rw [List.map_append, List.map_append, anonymous_uses h.conn, List.map_singleton, hsend]
      rfl
  · rw [pqErrorMessage_congr h.conn]
    refine (h.fail _ _ _).keep ?_
    simp only [List.map_append, anonymous_uses h.conn, List.map_singleton, hsend]

omit hactive

/-- Reading results of twins. -/
theorem readResults_alike {conn conn' : Option Nat} (hconn : conn'.isSome = conn.isSome)
    (leftover : CString) (lastBusy : Bool) (results : List (QueryResult × Bool)) :
    Twin (readResults conn leftover lastBusy task results).1
        (readResults conn' leftover lastBusy task' results).1 ∧
      (readResults conn' leftover lastBusy task' results).2.map Call.anonymous =
        (readResults conn leftover lastBusy task results).2.map Call.anonymous := by
  have hget : ∀ result busy, Call.anonymous (.getResult conn' result busy) =
      Call.anonymous (.getResult conn result busy) := by
    intro result busy
    rw [Call.anonymous, anonymous_conn hconn]
    rfl
  induction results with
  | nil =>
    refine ⟨h, ?_⟩
    rw [readResults, readResults, List.map_singleton, List.map_singleton, hget]
  | cons r results ih =>
    rw [readResults, readResults]
    -- the first result decides; without an error the rest does
    by_cases herror : r.1.status.isError = true
    · rw [if_pos herror, if_pos herror, List.map_singleton, List.map_singleton, hget]
      refine ⟨?_, rfl⟩
      by_cases hcanceled : r.1.sqlState = some queryCanceled
      · rw [if_pos hcanceled, if_pos hcanceled]
        have hlate : Twin { task with timedOut := true } { task' with timedOut := true } :=
          { h with timedOut := rfl }
        exact hlate.fail _ _ _
      · rw [if_neg hcanceled, if_neg hcanceled]
        exact h.fail _ _ _
    · rw [if_neg herror, if_neg herror]
      by_cases hcopy : r.1.status.isCopy = true
      · rw [if_pos hcopy, if_pos hcopy, List.map_singleton, List.map_singleton, hget]
        exact ⟨h.fail _ _ _, rfl⟩
      · rw [if_neg hcopy, if_neg hcopy, List.map_cons, List.map_cons, hget, ih.2]
        exact ⟨ih.1, rfl⟩

/-- The end of the results of twins. -/
theorem finishRunning_alike (io : Replies) :
    Alike (finishRunning task io) (finishRunning task' io) := by
  obtain ⟨hread, hcalls⟩ := readResults_alike h h.conn io.leftover io.lastBusy io.results
  have hclosed : Twin
      { (readResults task.conn io.leftover io.lastBusy task io.results).1 with
        conn := none, pollingStatus := .failed, isSocketReady := false }
      { (readResults task'.conn io.leftover io.lastBusy task' io.results).1 with
        conn := none, pollingStatus := .failed, isSocketReady := false } :=
    { hread with conn := rfl, isSocketReady := rfl, pollingStatus := fun _ => rfl }
  have hfinish : Call.anonymous (.finish task'.conn) = Call.anonymous (.finish task.conn) := by
    rw [Call.anonymous, anonymous_conn h.conn]
    rfl
  unfold finishRunning
  -- the run ends in ERROR, and DONE comes next otherwise
  dsimp only
  refine alike_ite (by rw [hread.state]) ?_ ?_
  · refine Twin.keep ?_ ?_
    · exact { hclosed with
        state := rfl
        startDeadline := fun hstate => absurd hstate (by simp)
        pollingStatus := fun _ => rfl }
    · simp only [List.map_append, List.map_singleton, hcalls, hfinish]
      rfl
  · refine hclosed.keep ?_
    simp only [List.map_append, List.map_singleton, hcalls, hfinish]

/-- Reading input of twins. -/
theorem readInput_alike (io : Replies) {calls calls' : List Call}
    (hcalls : calls'.map Call.anonymous = calls.map Call.anonymous) :
    Alike (readInput task io calls) (readInput task' io calls') := by
  have hmore : ∀ functions, (calls' ++ uses functions task'.conn).map Call.anonymous =
      (calls ++ uses functions task.conn).map Call.anonymous := by
    intro functions
    rw [List.map_append, List.map_append, hcalls, anonymous_uses h.conn]
  unfold readInput
  refine alike_ite (by rw [h.isSocketReady]) (h.keep hcalls) ?_
  refine alike_ite Iff.rfl ?_ ?_
  · rw [pqErrorMessage_congr h.conn]
    exact (h.fail _ _ _).keep (hmore _)
  refine alike_ite Iff.rfl (h.keep (hmore _)) ?_
  have hfinished := finishRunning_alike h io
  refine ⟨hfinished.task, ?_⟩
  dsimp only
  rw [List.map_append, hmore, hfinished.calls, ← List.map_append]

include hactive

/-- RUNNING of twins. -/
theorem manageRunning_alike (currentTime : Int) (io : Replies) :
    Alike (manageRunning task currentTime io) (manageRunning task' currentTime io) := by
  have hoverdue : task'.overdue currentTime = task.overdue currentTime := by
    rw [CronTask.overdue, CronTask.overdue, h.runDeadline, h.cancelRequested]
  have huses := anonymous_uses h.conn
  unfold manageRunning
  refine alike_ite (by rw [hactive]) (h.fail_alike _ _ _ []) ?_
  refine alike_ite (by rw [connectionBad_congr h.conn]) (h.fail_message_alike io _) ?_
  refine alike_ite (by rw [hoverdue]) ?_ (readInput_alike h io (huses _))
  -- no cancel handle, and a cancel that is not sent
  refine alike_ite Iff.rfl ?_ ?_
  · rw [h.jobId]
    exact Twin.keep { h.fail _ _ _ with timedOut := rfl } (huses _)
  refine alike_ite Iff.rfl ?_ ?_
  · rw [h.jobId]
    exact Twin.keep
      { h.fail _ _ _ with timedOut := rfl, cancelRequested := rfl, runDeadline := rfl }
      (huses _)
  · refine readInput_alike ?_ io (huses _)
    exact { h with
      cancelRequested := rfl
      timedOut := rfl
      runDeadline := rfl
      pollingStatus := fun _ => rfl }

/-- The error branch of twins. -/
theorem manageError_alike (io : Replies) : Alike (manageError task io) (manageError task' io) := by
  -- what is recorded names the runs, and the handles
  have hrecorded : (if task'.runId ≠ 0 then
        [Call.finishRun task'.runId (if task'.timedOut then .timeout else .failed)
          task'.errorMessage io.timestamp]
      else []).map Call.anonymous =
      (if task.runId ≠ 0 then
        [Call.finishRun task.runId (if task.timedOut then .timeout else .failed)
          task.errorMessage io.timestamp]
      else []).map Call.anonymous := by
    rw [h.timedOut, h.errorMessage]
    by_cases hrun : task.runId = 0
    · rw [if_neg (not_not.mpr hrun), if_neg (not_not.mpr (h.runId.mpr hrun))]
    · rw [if_pos hrun, if_pos fun hrun' => hrun (h.runId.mp hrun')]
      rfl
  have hclosed : (if task'.conn.isSome then [Call.finish task'.conn] else []).map Call.anonymous =
      (if task.conn.isSome then [Call.finish task.conn] else []).map Call.anonymous := by
    rw [h.conn]
    split
    · rw [List.map_singleton, List.map_singleton, Call.anonymous, anonymous_conn h.conn]
      rfl
    · rfl
  refine ⟨?_, ?_⟩
  · unfold manageError
    dsimp only
    by_cases hgone : task.isActive = false
    · rw [if_pos hgone, if_pos (hactive.trans hgone)]
      exact Option.Rel.none
    · rw [if_neg hgone, if_neg (hactive ▸ hgone)]
      refine Option.Rel.some ?_
      -- the fields that may differ are cleared
      exact { h with
        runId := Iff.rfl
        conn := rfl
        state := rfl
        runDeadline := rfl
        cancelRequested := rfl
        isSocketReady := rfl
        startDeadline := fun _ => rfl
        pollingStatus := fun _ => rfl }
  · unfold manageError
    dsimp only
    rw [List.map_append, List.map_append, hrecorded, hclosed]

omit hactive

/-- DONE of twins. -/
theorem manageDone_alike : Alike (manageDone task) (manageDone task') := by
  have hjobId : ∀ t : CronTask, (if t.pendingRunCount > maxPendingTasks then
      { t with pendingRunCount := maxPendingTasks } else t).jobId = t.jobId := by
    intro t
    split <;> rfl
  unfold manageDone
  refine Twin.keep ?_ rfl
  exact {
    jobId := (hjobId task').trans (h.jobId.trans (hjobId task).symm)
    state := rfl
    runId := Iff.rfl
    conn := rfl
    errorMessage := rfl
    timedOut := rfl
    cancelRequested := rfl
    runDeadline := rfl
    isSocketReady := rfl
    startDeadline := fun _ => rfl
    pollingStatus := fun _ => rfl }

end Branches

/-- **A step** of a run on twins: the same transition, the same calls and the same records. -/
theorem manageCronTask_alike {task task' : CronTask} (h : Twin task task')
    (hactive : task'.isActive = task.isActive) (hstate : task.state ≠ .waiting)
    (job : Option CronJob) (statementTimeoutMs currentTime : Int) {runId runId' : Int}
    (hnew : runId ≠ 0) (hnew' : runId' ≠ 0) (conn conn' : Nat) (io : Replies) :
    Alike (manageCronTask ⟨job, statementTimeoutMs, currentTime, runId, conn⟩ task io)
      (manageCronTask ⟨job, statementTimeoutMs, currentTime, runId', conn'⟩ task' io) := by
  -- without a job both tasks go to ERROR
  have hgone : Twin
      { setTaskError io.leftover task (ascii "job metadata not found") [] with state := .error }
      { setTaskError io.leftover task' (ascii "job metadata not found") [] with state := .error } :=
    { h with
      state := rfl
      errorMessage := rfl
      startDeadline := fun hstate => absurd hstate (by simp)
      pollingStatus := fun hstate => absurd hstate (by simp [CronTaskState.isConnected]) }
  unfold manageCronTask
  dsimp only
  rw [h.state]
  cases job with
  | none =>
    cases hcase : task.state with
    | done => exact manageDone_alike h
    | _ => exact manageError_alike hgone hactive io
  | some job =>
    cases hcase : task.state with
    | waiting => exact absurd hcase hstate
    | start => exact manageStart_alike h job _ _ hnew hnew' conn conn' io
    | connecting => exact manageConnecting_alike h hactive hcase _ io
    | sending => exact manageSending_alike h hactive hcase job _ _ io
    | running => exact manageRunning_alike h hactive _ io
    | error => exact manageError_alike h hactive io
    | receiving => exact manageDone_alike h
    | done => exact manageDone_alike h

/-! ### Waits -/

/-- Registering the sockets of twins. -/
theorem registerTask_twin {task task' : CronTask} (h : Twin task task')
    (hneeds : taskNeedsSocketWait task = true) {io io' : WaitReplies}
    (hleftover : io'.leftover = io.leftover)
    (hsocket : ∀ conn conn', task.conn = some conn → task'.conn = some conn' →
      io'.socket conn' = io.socket conn) :
    Twin (registerTask io task).1 (registerTask io' task').1 ∧
      (registerTask io' task').2.1 = (registerTask io task).2.1 := by
  have hneeds' : taskNeedsSocketWait task' = taskNeedsSocketWait task := by
    rw [taskNeedsSocketWait, taskNeedsSocketWait, h.state]
  have hevents : taskWaitEvents task' = taskWaitEvents task := by
    rw [taskWaitEvents, taskWaitEvents, h.pollingStatus hneeds]
  unfold registerTask
  rw [hneeds', hevents, hleftover, h.jobId]
  -- the tasks are registered or skipped alike; only the numbers of the connections differ
  by_cases hidle : taskNeedsSocketWait task = false ∨ taskWaitEvents task = none
  · rw [if_pos hidle, if_pos hidle]
    exact ⟨h, rfl⟩
  · rw [if_neg hidle, if_neg hidle]
    have hconn := h.conn
    cases hcase : task.conn with
    | none =>
      rw [hcase, Option.isSome_none, Option.isSome_eq_false_iff, Option.isNone_iff_eq_none] at hconn
      rw [hconn]
      exact ⟨h.fail _ _ _, rfl⟩
    | some conn =>
      rw [hcase, Option.isSome_some, Option.isSome_iff_exists] at hconn
      obtain ⟨conn', hconn'⟩ := hconn
      rw [hconn']
      dsimp only
      rw [hsocket conn conn' hcase hconn']
      split
      · exact ⟨{ h.fail _ _ _ with pollingStatus := fun _ => rfl }, rfl⟩
      · exact ⟨h, rfl⟩

/-- A wait of twins whose sockets are equally ready. -/
theorem awaitTask_twin {task task' : CronTask} (h : Twin task task')
    (hneeds : taskNeedsSocketWait task = true) {io io' : WaitReplies}
    (hleftover : io'.leftover = io.leftover)
    (hsocket : ∀ conn conn', task.conn = some conn → task'.conn = some conn' →
      io'.socket conn' = io.socket conn)
    {k k' : Int} (hready : io'.ready k' = io.ready k) :
    Twin (awaitTask io k task) (awaitTask io' k' task') := by
  obtain ⟨htwin, hregistered⟩ := registerTask_twin h hneeds hleftover hsocket
  unfold awaitTask
  dsimp only
  rw [hregistered, hready]
  split
  · exact { htwin with isSocketReady := rfl }
  · exact htwin

/-! ### Steps of the worker -/

/-- A step that shows nothing to the task of a job leaves its run alone. -/
theorem twin_silent {w : World} {k : Int} {task t : CronTask}
    (hlookup : w.tasks.lookup k = some task) (h : Twin t task) {l : Label}
    (hsilent : w.facing k task l = none) :
    Option.Rel Twin (some t) ((w.step l).tasks.lookup k) := by
  cases l with
  | invalidate => exact hlookup ▸ Option.Rel.some h
  | sighup statementTimeout => exact hlookup ▸ Option.Rel.some h
  | deleteRuns gone => exact hlookup ▸ Option.Rel.some h
  | reload source currentTime =>
    rw [World.step, lookup_reload, hlookup]
    split
    · exact Option.Rel.some { h with }
    · exact Option.Rel.some { h with }
  | startPending currentTime =>
    obtain ⟨pending, next, heq⟩ := schedulePendingTask_eq w.jobs
      (initLastMinute w.lastMinute currentTime) currentTime task
    rw [World.step, lookup_startPending, hlookup, Option.map_some, heq]
    exact Option.Rel.some { h with }
  | wait io =>
    rw [World.facing] at hsilent
    split at hsilent <;> exact absurd hsilent (by simp)
  | manage jobId currentTime gap io =>
    by_cases hk : jobId = k
    · rw [World.facing, if_pos hk] at hsilent
      exact absurd hsilent (by simp)
    · rw [World.step, lookup_manage_ne (Ne.symm hk), hlookup]
      exact Option.Rel.some h

/-- A step that shows something to the task of a job does to it what it does to its twin. -/
theorem twin_facing {w : World} (hactive : w.ActiveMatches) {k : Int} {task t : CronTask}
    (hlookup : w.tasks.lookup k = some task) (h : Twin t task) (hstate : task.state ≠ .waiting)
    {l : Label} {facing : Facing} (hfacing : w.facing k task l = some facing) :
    Option.Rel Twin (t.meet facing).1 ((w.step l).tasks.lookup k) ∧
      (w.turnCalls task l).map Call.anonymous = (t.meet facing).2.map Call.anonymous := by
  cases l with
  | wait io =>
    rw [World.facing] at hfacing
    rw [World.step, lookup_wait, hlookup, Option.map_some]
    by_cases hblind : w.waitTimeout io = 0 ∨ taskNeedsSocketWait task = false
    · -- the wait does not look at the socket
      rw [if_pos hblind] at hfacing
      obtain rfl := Option.some.inj hfacing
      refine ⟨?_, rfl⟩
      have hunready : (if w.waitTimeout io = 0 then task.unready
          else awaitTask io k task.unready) = task.unready := by
        rcases hblind with hzero | hneeds
        · rw [if_pos hzero]
        · have hidle : awaitTask io k task.unready = task.unready := awaitTask_idle io k hneeds
          rw [hidle, ite_self]
      rw [hunready]
      exact Option.Rel.some h.unready
    · rw [if_neg hblind] at hfacing
      obtain rfl := Option.some.inj hfacing
      obtain ⟨hzero, hneeds⟩ := not_or.mp hblind
      have hneeds' : taskNeedsSocketWait t.unready = true := by
        rw [taskNeedsSocketWait, h.state] at hneeds
        exact Bool.not_eq_false _ |>.mp hneeds
      have hsocket : ∀ conn conn', t.unready.conn = some conn → task.unready.conn = some conn' →
          io.socket conn' = (task.conn.map io.socket).getD 0 := by
        intro conn conn' _ hconn'
        change task.conn = some conn' at hconn'
        rw [hconn']
        rfl
      have hawait : Twin
          (awaitTask ⟨0, fun _ => (task.conn.map io.socket).getD 0, fun _ => io.ready k,
            io.leftover⟩ t.jobId t.unready)
          (awaitTask io k task.unready) := by
        apply awaitTask_twin h.unready hneeds'
        · rfl
        · exact hsocket
        · rfl
      rw [if_neg hzero]
      exact ⟨Option.Rel.some hawait, rfl⟩
  | manage jobId currentTime gap io =>
    by_cases hk : jobId = k
    · subst hk
      rw [World.facing, if_pos rfl] at hfacing
      obtain rfl := Option.some.inj hfacing
      -- the flag is no input of the run: it says whether the job is loaded
      have hsame : task.isActive = (getCronJob w.jobs task.jobId).isSome :=
        Bool.eq_iff_iff.mpr (hactive jobId task hlookup)
      have hpos := nextRunId_pos w.history gap
      have htwin : Twin { t with isActive := (getCronJob w.jobs task.jobId).isSome } task :=
        { h with }
      have halike := manageCronTask_alike htwin hsame (h.state ▸ hstate)
        (getCronJob w.jobs task.jobId) w.statementTimeout.ms currentTime one_ne_zero hpos.ne' 0
        w.newConn io
      refine ⟨?_, halike.calls⟩
      rw [World.step, lookup_manage_self hlookup]
      exact halike.task
    · rw [World.facing, if_neg hk] at hfacing
      exact absurd hfacing (by simp)
  | _ => exact absurd hfacing (by simp [World.facing])

/-- Twins look alike. -/
theorem observe_twin {calls calls' : List Call} {task task' : Option CronTask}
    (h : Option.Rel Twin task task')
    (hcalls : calls'.map Call.anonymous = calls.map Call.anonymous) :
    observe calls' task' = observe calls task := by
  unfold observe
  rw [hcalls]
  cases h with
  | none => rfl
  | some htwin =>
    rw [Option.map_some, Option.map_some, Option.bind_some, Option.bind_some, htwin.state,
      htwin.deadline]

/-- **A run of the worker**, seen at the task of a job, is a run of the task's twin. -/
theorem observed_eq_play {w : World} (hok : WorldOk w) (hactive : w.ActiveMatches) {k : Int}
    {t : Option CronTask} (h : Option.Rel Twin t (w.tasks.lookup k)) (ms : List Label) :
    w.observed k ms = CronTask.play t (w.faced k ms) := by
  induction ms generalizing w t with
  -- the run is over in both, or goes on in both: twins are in the same state
  | nil => cases t <;> rfl
  | cons l ms ih =>
    have hstep := fun (t : Option CronTask) (h : Option.Rel Twin t ((w.step l).tasks.lookup k)) =>
      ih (hok.step l) (activeMatches_step hok hactive l) h
    rw [World.observed, World.faced]
    cases hlookup : w.tasks.lookup k with
    | none => cases t <;> rfl
    | some task =>
      rw [hlookup] at h
      cases h with
      | some htwin =>
        dsimp only
        by_cases hwaiting : task.state = .waiting
        · rw [if_pos hwaiting, if_pos hwaiting]
          rfl
        · rw [if_neg hwaiting, if_neg hwaiting]
          cases hfacing : w.facing k task l with
          -- the twin does not see this step at all
          | none => exact hstep _ (twin_silent hlookup htwin hfacing)
          | some facing =>
            obtain ⟨hrel, hcalls⟩ := twin_facing hactive hlookup htwin hwaiting hfacing
            rw [Option.map_some, Option.toList_some, Option.toList_some, List.singleton_append,
              List.singleton_append, CronTask.play, if_neg (htwin.state ▸ hwaiting),
              observe_twin hrel hcalls, hstep _ hrel]

/-- **Runs are isolated from each other.**  In every state a worker reaches, a task in WAITING or
    START has nothing left of an earlier run.  Take two runs, of one worker or of two, from the
    START of the task of a job on: if their steps meet the same job, settings and clock readings
    and the same replies of libpq, they make the same transitions and the same calls, the
    cancellations and the records in the history among them, whatever came before. -/
theorem runs_isolated (statementTimeout statementTimeout' : StatementTimeout)
    (history history' : History) (ls ls' : List Label) :
    let w := Machine.run World.step (World.launch statementTimeout history) ls
    let w' := Machine.run World.step (World.launch statementTimeout' history') ls'
    (∀ k task, w.tasks.lookup k = some task → task.state = .waiting ∨ task.state = .start →
      task.Clean) ∧
    ∀ k task task', w.tasks.lookup k = some task → w'.tasks.lookup k = some task' →
      task.state = .start → task'.state = .start →
      ∀ ms ms', w.faced k ms = w'.faced k ms' → w.observed k ms = w'.observed k ms' := by
  obtain ⟨hok, hactive⟩ := reached_active statementTimeout history ls
  obtain ⟨hok', hactive'⟩ := reached_active statementTimeout' history' ls'
  have hclean := reached_clean statementTimeout history ls
  have hclean' := reached_clean statementTimeout' history' ls'
  refine ⟨hclean, fun k task task' hlookup hlookup' hstart hstart' ms ms' hfaced => ?_⟩
  -- both runs are the run of a new task
  have htwin := twin_startedTask (hok.tasks k task hlookup).keyed hstart
    (hclean k task hlookup (Or.inr hstart))
  have htwin' := twin_startedTask (hok'.tasks k task' hlookup').keyed hstart'
    (hclean' k task' hlookup' (Or.inr hstart'))
  rw [observed_eq_play hok hactive (hlookup ▸ Option.Rel.some htwin), hfaced,
    observed_eq_play hok' hactive' (hlookup' ▸ Option.Rel.some htwin')]

/-- A run times out, its cancel fails, and the next run of the job is at its START. -/
def afterTimeout : List Label :=
  rereadRun (secondsRow (ascii "alice") (ascii "SELECT 1"))
      (secondsRow (ascii "alice") (ascii "SELECT 1")) ++
    [.manage 7 90000000 0 { smoothReplies with getCancel := false },
      .manage 7 90000000 0 smoothReplies, .manage 7 90000000 0 smoothReplies,
      .startPending 91000000, .manage 7 91000000 0 smoothReplies]

/-- No connection can be opened. -/
def refusedConnection : List Label :=
  [.manage 7 92000000 0 { smoothReplies with connection := false },
    .manage 7 92000000 0 smoothReplies, .manage 7 92000000 0 smoothReplies]

/-- The theorem at a run that cannot connect: after a run that has timed out it is recorded as
    failed, as it is for a new task. -/
theorem runs_isolated_afterTimeout :
    let w := Machine.run World.step (World.launch defaultTimeout emptyHistory)
      (untilStart (secondsRow (ascii "alice") (ascii "SELECT 1")))
    let w' := Machine.run World.step (World.launch defaultTimeout emptyHistory) afterTimeout
    (w.faced 7 refusedConnection).length = 3 ∧
      w.observed 7 refusedConnection = w'.observed 7 refusedConnection := by
  intro w w'
  have hstart : (w.tasks.lookup 7).any (fun task => decide (task.state = .start)) = true := by
    decide +kernel
  have hstart' : (w'.tasks.lookup 7).any (fun task => decide (task.state = .start)) = true := by
    decide +kernel
  rw [Option.any_eq_true] at hstart hstart'
  obtain ⟨task, hlookup, hstate⟩ := hstart
  obtain ⟨task', hlookup', hstate'⟩ := hstart'
  exact ⟨by decide +kernel,
    (runs_isolated defaultTimeout defaultTimeout emptyHistory emptyHistory
      (untilStart (secondsRow (ascii "alice") (ascii "SELECT 1"))) afterTimeout).2 7 task task'
      hlookup hlookup' (of_decide_eq_true hstate) (of_decide_eq_true hstate') refusedConnection
      refusedConnection (by decide +kernel)⟩

end NedoCron
